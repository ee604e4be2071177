import Mathlib.Algebra.Ring.Nat
import ServiceSchema.Proofs.Compiler
import ServiceSchema.Proofs.FieldKind
import ServiceSchema.Proofs.Text.Utf8

/-! # What every service is like
A service has one field for each entry of its document. What holds of a field follows from its entry and the
category it is in, whatever the profile and the rest of the document. -/
namespace ServiceSchema
open ServiceSchema.Json

/-! ## Fields -/

def scalarNames : List String :=
  ["char", "int8_t", "uint8_t", "int16_t", "uint16_t", "int32_t", "uint32_t", "float", "double"]

theorem Scalar.name_mem (t : Scalar) : t.name ∈ scalarNames := by cases t <;> decide

/-- The codec of an input decodes for the field's callback; its code calls the codec and ends with the
callback. -/
structure Field.DecodedBy (f : Field) (codec : Codec) : Prop where
  role : codec.role = .decode f.callbackName
  code : ∃ before between, f.decoderCode? = some (before ++ "if (" ++ codec.entryPoint ++ "(" ++ between
    ++ "return " ++ f.callbackName ++ "(decoded);\n")
  noEncoder : f.encoderCode? = none

/-- The codec of an output encodes for the field's id; its code calls the codec and sends the id. -/
structure Field.EncodedBy (f : Field) (codec : Codec) : Prop where
  role : codec.role = .encode f.id
  code : ∃ before between after, f.encoderCode? = some (before ++ "if (" ++ codec.entryPoint ++ "(" ++ between
    ++ "return SendData(" ++ toString f.id.toNat ++ "," ++ after)
  noDecoder : f.decoderCode? = none

structure Field.Matches (c : Category) (e : Entry) (f : Field) : Prop where
  category : f.category = c
  id : f.id = e.id
  rawName : f.rawName = e.name
  name : f.name = Identifier.derive e.name
  callbackName : f.callbackName = Identifier.callback c f.name
  methodName : f.methodName = Identifier.method c f.name
  scalar : ∀ t, f.kind = .scalar t → t.name ∈ scalarNames
  array : ∀ t n, f.kind = .array t n → t.name ∈ scalarNames ∧ 1 ≤ n.toNat ∧ n.toNat ≤ 2 ^ 32 - 1
  compiled : ∀ codec, f.kind = .compiled codec → CIdentifier codec.type ∧ codec.type = e.declaredType ∧
    ((c = .input ∧ f.DecodedBy codec) ∨ (c = .output ∧ f.EncodedBy codec))
  default : f.default = if c = .register then e.default.map Value.compact else none

theorem decodedBy_of_role {f : Field} {codec : Codec} (hkind : f.kind = .compiled codec)
    (hrole : codec.role = .decode f.callbackName) : f.DecodedBy codec := by
  obtain ⟨type, entryPoint, header, role⟩ := codec
  obtain rfl : role = .decode f.callbackName := hrole
  refine ⟨rfl, ⟨type ++ " decoded\x7b\x7d;\n", ?_, ?_⟩, ?_⟩
  · exact "static_cast<const uint8_t *>(payload), length, &decoded, nullptr) != ZCBOR_SUCCESS) \x7b\n"
      ++ "    return false;\n" ++ "\x7d\n"
  · simp only [Field.decoderCode?, hkind, Codec.snippet, Option.some.injEq, String.append_assoc]
    rfl
  · simp only [Field.encoderCode?, hkind]

theorem encodedBy_of_role {f : Field} {codec : Codec} (hkind : f.kind = .compiled codec)
    (hrole : codec.role = .encode f.id) : f.EncodedBy codec := by
  obtain ⟨type, entryPoint, header, role⟩ := codec
  obtain rfl : role = .encode f.id := hrole
  refine ⟨rfl, ⟨"size_t encoded_length = 0;\n", ?_, " scratch_buffer, encoded_length);\n", ?_⟩, ?_⟩
  · exact "scratch_buffer, sizeof(scratch_buffer), &data, &encoded_length) != ZCBOR_SUCCESS) \x7b\n"
      ++ "    return false;\n" ++ "\x7d\n"
  · simp only [Field.encoderCode?, hkind, Codec.snippet, Option.some.injEq, String.append_assoc]
    rfl
  · simp only [Field.decoderCode?, hkind]

theorem matches_of_compiles {p : Profile} {c : Category} {e : Entry} {f : Field} (h : Field.Compiles p c e f) :
    Field.Matches c e f := by
  obtain ⟨k, hk, rfl⟩ := h
  have hnames (hscalar : ∀ t, k = .scalar t → t.name ∈ scalarNames)
      (harray : ∀ t n, k = .array t n → t.name ∈ scalarNames ∧ 1 ≤ n.toNat ∧ n.toNat ≤ 2 ^ 32 - 1)
      (hcompiled : ∀ codec, k = .compiled codec → CIdentifier codec.type ∧ codec.type = e.declaredType ∧
        ((c = .input ∧ (Field.ofEntry c e k).DecodedBy codec) ∨
          (c = .output ∧ (Field.ofEntry c e k).EncodedBy codec))) : Field.Matches c e (.ofEntry c e k) :=
    ⟨rfl, rfl, rfl, rfl, rfl, rfl, hscalar, harray, hcompiled, rfl⟩
  rcases FieldKind.select_cases hk with ⟨t, ht, rfl⟩ | ⟨codec, htype, hcodec, rfl⟩
  · cases t with
    | scalar t => exact hnames (fun t _ => t.name_mem) nofun nofun
    | array t n =>
      refine hnames nofun (fun u m h => ?_) nofun
      cases h
      have hpos := DeclaredType.array_length_pos ht
      have hlt := n.toNat_lt
      exact ⟨t.name_mem, hpos, by omega⟩
  · refine hnames nofun nofun fun codec' h => ?_
    cases h
    cases c with
    | input =>
      cases hcodec
      exact ⟨htype, rfl, .inl ⟨rfl, decodedBy_of_role rfl rfl⟩⟩
    | output =>
      cases hcodec
      exact ⟨htype, rfl, .inr ⟨rfl, encodedBy_of_role rfl rfl⟩⟩
    | register => cases hcodec

/-! ## Services -/

structure Service.Invariant (d : Document) (s : Service) : Prop where
  ids : ∀ c, ((s.fields c).map Field.id).Nodup
  fields : ∀ c, List.Forall₂ (Field.Matches c) (d.entries c) (s.fields c)
  includes : ∀ header, header ∈ s.includes.items ↔
    ∃ c, ∃ f ∈ s.fields c, ∃ codec, f.kind = .compiled codec ∧ codec.header = header
  increasing : s.includes.items.Pairwise fun a b => Utf8.encode a.toList < Utf8.encode b.toList

theorem map_id_of_matches {c : Category} {es : List Entry} {fs : List Field}
    (h : List.Forall₂ (Field.Matches c) es fs) : fs.map Field.id = es.map Entry.id := by
  induction h with
  | nil => rfl
  | cons hf _ ih => rw [List.map_cons, List.map_cons, hf.id, ih]

theorem Service.mem_fields {s : Service} {f : Field} :
    f ∈ s.inputs ++ s.outputs ++ s.registers ↔ ∃ c, f ∈ s.fields c := by
  rw [List.mem_append, List.mem_append]
  constructor
  · rintro ((h | h) | h)
    · exact ⟨.input, h⟩
    · exact ⟨.output, h⟩
    · exact ⟨.register, h⟩
  · rintro ⟨c, h⟩
    cases c with
    | input => exact .inl (.inl h)
    | output => exact .inl (.inr h)
    | register => exact .inr h

/-- Every field of a service is what its entry calls for, and the copies of the document are its two forms. -/
theorem matches_of_compile {p : Profile} {value : Value} {s : Service} (h : (compile p value).result = .ok s) :
    ∃ ms d, value = .object ms ∧ Document.ReadFrom ms d ∧
      (∀ c, List.Forall₂ (Field.Matches c) (d.entries c) (s.fields c)) ∧
      s.json = value.pretty ∧ s.cbor = Cbor.encode value := by
  obtain ⟨ms, d, hvalue, hfrom, -, hs⟩ := compile_eq_ok h
  obtain ⟨hfields, -, -, -, hjson, hcbor⟩ := assembleService_eq_ok.1 hs
  exact ⟨ms, d, hvalue, hfrom, fun c => (hfields c).imp fun _ _ => matches_of_compiles, hjson, hcbor⟩

/-- What holds of every service that a document compiles to. -/
theorem invariant_of_compile {p : Profile} {value : Value} {s : Service} (h : (compile p value).result = .ok s) :
    ∃ ms d, value = .object ms ∧ Document.ReadFrom ms d ∧ Service.Invariant d s := by
  obtain ⟨ms, d, hvalue, hfrom, hids, hs⟩ := compile_eq_ok h
  obtain ⟨hfields, -, -, hincludes, -, -⟩ := assembleService_eq_ok.1 hs
  have hmatches (c : Category) : List.Forall₂ (Field.Matches c) (d.entries c) (s.fields c) :=
    (hfields c).imp fun _ _ => matches_of_compiles
  refine ⟨ms, d, hvalue, hfrom, fun c => ?_, hmatches, fun header => ?_, ?_⟩
  · rw [map_id_of_matches (hmatches c)]
    exact hids c
  · change header ∈ s.includes ↔ _
    rw [hincludes, Includes.mem_addFields_empty]
    simp only [Service.mem_fields]
    exact ⟨fun ⟨f, ⟨c, hf⟩, hcodec⟩ => ⟨c, f, hf, hcodec⟩, fun ⟨c, f, hf, hcodec⟩ => ⟨f, ⟨c, hf⟩, hcodec⟩⟩
  · exact s.includes.sorted.imp Utf8.lt_iff_encode_lt.1

/-- A motor with a compiled input, a raw array as output, and a register that carries a default. -/
def motorSchema : Value := .object [
  ("inputs", .array [.object [("encoding", .string "zcbor"), ("id", .number (.integer 1 (by decide))),
    ("name", .string "speed set"), ("type", .string "Setpoint")]]),
  ("outputs", .array [.object [("id", .number (.integer 1 (by decide))), ("name", .string "trace"),
    ("type", .string "uint8_t[16]")]]),
  ("registers", .array [.object [("default", .null), ("id", .number (.integer 2 (by decide))),
    ("name", .string "gain"), ("type", .string "float")]]),
  ("type", .string "Motor"),
  ("version", .number (.integer 1 (by decide)))]

theorem compile_motor : ∃ s, (compile .standard motorSchema).result = .ok s ∧ s.className = "MotorBase" ∧
    s.inputs.map Field.name = ["speedset"] ∧ s.outputs.map Field.kind = [.array .uint8 16] ∧
    s.registers.map Field.default = [some "null"] ∧ s.includes.items = ["\"Setpoint_decode.h\""] := by
  have hcompiles : ((compile .standard motorSchema).result.toOption.any fun s => s.className = "MotorBase" ∧
      s.inputs.map Field.name = ["speedset"] ∧ s.outputs.map Field.kind = [.array .uint8 16] ∧
      s.registers.map Field.default = [some "null"] ∧ s.includes.items = ["\"Setpoint_decode.h\""]) = true := by
    decide +kernel
  obtain ⟨s, hs, hparts⟩ := (Option.any_eq_true _ _).1 hcompiles
  exact ⟨s, eq_ok_of_toOption hs, of_decide_eq_true hparts⟩

theorem invariant_of_compile_motor : ∃ s ms d, (compile .standard motorSchema).result = .ok s ∧
    motorSchema = .object ms ∧ Document.ReadFrom ms d ∧ Service.Invariant d s ∧
    s.inputs.map Field.name = ["speedset"] ∧ s.outputs.map Field.kind = [.array .uint8 16] ∧
    s.registers.map Field.default = [some "null"] ∧ s.includes.items = ["\"Setpoint_decode.h\""] := by
  obtain ⟨s, hs, -, hparts⟩ := compile_motor
  obtain ⟨ms, d, hvalue, hfrom, hinvariant⟩ := invariant_of_compile hs
  exact ⟨s, ms, d, hs, hvalue, hfrom, hinvariant, hparts⟩

end ServiceSchema
