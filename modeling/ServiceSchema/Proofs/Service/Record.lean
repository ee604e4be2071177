import ServiceSchema.Proofs.Json.OneLine
import ServiceSchema.Proofs.Json.RoundTrip
import ServiceSchema.Proofs.Service
import ServiceSchema.Service.Record

/-! # Records of services
The record of a service is printed in two layouts, and both are read as one value. Every part of the service is
found in it under its key, whatever characters its strings hold. -/
namespace ServiceSchema
open ServiceSchema.Json

/-! ## Records are read -/

namespace Json

/-- Nested no deeper than `n`, and without doubles. -/
def Value.Plain (n : Nat) (v : Value) : Prop := v.depth ≤ n ∧ ∀ x, .number (.double x) ∉ v.subvalues

theorem plain_string (s : String) : (Value.string s).Plain 0 := by simp [Value.Plain, Value.depth, Value.subvalues]

theorem plain_bool (b : Bool) : (Value.bool b).Plain 0 := by simp [Value.Plain, Value.depth, Value.subvalues]

theorem plain_word (n : UInt64) : (Value.number (.ofWord n)).Plain 0 := by
  simp [Value.Plain, Value.depth, Value.subvalues, Number.ofWord]

theorem plain_array {n : Nat} {items : List Value} (h : ∀ v ∈ items, v.Plain n) :
    (Value.array items).Plain (n + 1) := by
  refine ⟨Value.depth_array_le.2 fun v hv => (h v hv).1, fun x hx => ?_⟩
  rcases Value.mem_subvalues_array.1 hx with hx | ⟨v, hv, hx⟩
  · cases hx
  · exact (h v hv).2 x hx

theorem plain_object {n : Nat} {members : Members} (h : ∀ m ∈ members, m.2.Plain n) :
    (Value.object members).Plain (n + 1) := by
  refine ⟨Value.depth_object_le.2 fun m hm => (h m hm).1, fun x hx => ?_⟩
  rcases Value.mem_subvalues_object.1 hx with hx | ⟨m, hm, hx⟩
  · cases hx
  · exact (h m hm).2 x hx

theorem Value.Plain.mono {m n : Nat} {v : Value} (h : v.Plain m) (hmn : m ≤ n) : v.Plain n :=
  ⟨Nat.le_trans h.1 hmn, h.2⟩

/-- Both layouts of a record are read as its normal form. -/
theorem read_of_plain {v : Value} (h : v.Plain Reader.maxDepth) :
    read v.compact = .ok v.normalize ∧ read v.pretty = .ok v.normalize := by
  have hnumbers := numbersReadBack_of_no_double h.2
  have hread {cs : List Char} (hcs : Spells cs v.lexemes) : read (String.ofList cs) = .ok v.normalize := by
    have hchars := toOption_readChars hcs
    rw [if_pos h.1] at hchars
    rw [read, String.toList_ofList]
    exact eq_ok_of_toOption hchars
  exact ⟨hread (spells_compact hnumbers), hread (spells_pretty hnumbers 0)⟩

end Json

/-! ## Fields -/

@[simp] theorem get?_optionalMember (key k : String) (v : Option Value) :
    Members.get? key (optionalMember k v) = if k = key then v else none := by
  cases v <;> simp [optionalMember, Members.get?]

theorem keys_optionalMember (k : String) (v : Option Value) :
    ((optionalMember k v).map Prod.fst).Sublist [k] := by
  cases v <;> simp [optionalMember]

def Field.keys : List String :=
  ["id", "name", "raw_name", "type", "is_array", "max_length", "encoding", "callback_name", "method_name",
    "custom_decoder_code", "custom_encoder_code", "default"]

theorem Field.keys_nodup (f : Field) : (f.members.map Prod.fst).Nodup := by
  have hsublist : (f.members.map Prod.fst).Sublist Field.keys := by
    simp only [Field.members, List.map_append]
    exact (((((List.Sublist.refl _).append (keys_optionalMember _ _)).append (List.Sublist.refl _)).append
      (keys_optionalMember _ _)).append (keys_optionalMember _ _)).append (keys_optionalMember _ _)
  exact hsublist.nodup (by decide)

theorem forall_mem_optionalMember {P : String × Value → Prop} {k : String} {v : Option Value} :
    (∀ m ∈ optionalMember k v, P m) ↔ ∀ w, v = some w → P (k, w) := by
  cases v <;> simp [optionalMember]

theorem Field.plain_members (f : Field) : ∀ m ∈ f.members, m.2.Plain 0 := by
  simp only [Field.members, List.forall_mem_append, List.forall_mem_cons, forall_mem_optionalMember,
    Option.map_eq_some_iff, List.not_mem_nil, false_imp_iff, implies_true, and_true, forall_exists_index, and_imp]
  simp +contextual [plain_string, plain_bool, plain_word]

structure Field.RecordedIn (f : Field) (ms : Members) : Prop where
  id : Members.get? "id" ms = some (.number (.ofWord f.id.toUInt64))
  name : Members.get? "name" ms = some (.string f.name)
  rawName : Members.get? "raw_name" ms = some (.string f.rawName)
  type : Members.get? "type" ms = some (.string f.kind.typeName)
  isArray : Members.get? "is_array" ms = some (.bool f.kind.isArray)
  maxLength : Members.get? "max_length" ms = f.kind.maxLength?.map fun n => .number (.ofWord n.toUInt64)
  encoding : Members.get? "encoding" ms = some (.string f.kind.encoding.name)
  callbackName : Members.get? "callback_name" ms = some (.string f.callbackName)
  methodName : Members.get? "method_name" ms = some (.string f.methodName)
  decoder : Members.get? "custom_decoder_code" ms = f.decoderCode?.map .string
  encoder : Members.get? "custom_encoder_code" ms = f.encoderCode?.map .string
  default : Members.get? "default" ms = f.default.map .string

/-- What is found in the normal form of a record, if what is found in the record is normal. -/
theorem get?_of_normalize {members r : Members} (h : (members.map Prod.fst).Nodup)
    (hr : (Value.object members).normalize = .object r) (key : String) :
    Members.get? key r = (Members.get? key members).map Value.normalize := by
  cases hr
  exact Value.get?_normalize h key

theorem Service.keys_nodup (s : Service) : (s.members.map Prod.fst).Nodup := by
  change ["type", "version", "class_name", "interface_class_name", "inputs", "outputs", "registers",
    "additional_includes", "service_json", "service_cbor", "service_cbor_c_array"].Nodup
  decide

theorem plain_map {α : Type} {n : Nat} {write : α → Value} (as : List α) (h : ∀ a, (write a).Plain n) :
    (Value.array (as.map write)).Plain (n + 1) := by
  refine plain_array fun v hv => ?_
  obtain ⟨a, -, rfl⟩ := List.mem_map.1 hv
  exact h a

theorem Service.plain_record (s : Service) : s.record.Plain Reader.maxDepth := by
  have hfield (f : Field) : f.record.Plain 1 := plain_object f.plain_members
  have hfields (fs : List Field) : (Value.array (fs.map Field.record)).Plain 2 := plain_map fs hfield
  have hstring (t : String) : (Value.string t).Plain 2 := (plain_string t).mono (Nat.zero_le 2)
  have hversion : (Value.number (.ofWord s.version.toUInt64)).Plain 2 := (plain_word _).mono (Nat.zero_le 2)
  have hincludes : (Value.array (s.includes.items.map .string)).Plain 2 :=
    (plain_map _ plain_string).mono (by decide)
  have hcbor : (Value.array (s.cbor.map fun b => .number (.ofWord b.toUInt64))).Plain 2 :=
    (plain_map s.cbor fun b : UInt8 => plain_word b.toUInt64).mono (by decide)
  have hrecord : s.record.Plain 3 := by
    refine plain_object ?_
    simp only [Service.members, List.forall_mem_cons, List.not_mem_nil, false_imp_iff, implies_true, and_true]
    exact ⟨hstring _, hversion, hstring _, hstring _, hfields _, hfields _, hfields _, hincludes, hstring _, hcbor,
      hstring _⟩
  exact hrecord.mono (by decide)

/-- What the record of a service says of it, its fields apart. -/
structure Service.RecordedIn (s : Service) (ms : Members) : Prop where
  serviceType : Members.get? "type" ms = some (.string s.serviceType)
  version : Members.get? "version" ms = some (.number (.ofWord s.version.toUInt64))
  className : Members.get? "class_name" ms = some (.string s.className)
  interfaceClassName : Members.get? "interface_class_name" ms = some (.string s.interfaceClassName)
  includes : Members.get? "additional_includes" ms = some (.array (s.includes.items.map .string))
  json : Members.get? "service_json" ms = some (.string s.json)
  cbor : Members.get? "service_cbor" ms = some (.array (s.cbor.map fun b => .number (.ofWord b.toUInt64)))
  cArray : Members.get? "service_cbor_c_array" ms = some (.string s.cArray)

theorem normalize_map {α : Type} {write : α → Value} (as : List α) :
    (Value.array (as.map write)).normalize = .array (as.map fun a => (write a).normalize) := by
  rw [Value.normalize, Value.normalizeItems_eq_map, List.map_map]
  rfl

theorem Service.recordedIn_of_normalize {s : Service} {ms : Members} (h : s.record.normalize = .object ms) :
    s.RecordedIn ms := by
  have hget {key : String} {v w : Value} (hmem : Members.get? key s.members = some v) (hv : v.normalize = w) :
      Members.get? key ms = some w := by
    rw [get?_of_normalize s.keys_nodup h, hmem, Option.map_some, hv]
  constructor
  · exact hget rfl rfl
  · exact hget rfl rfl
  · exact hget rfl rfl
  · exact hget rfl rfl
  · exact hget rfl (normalize_map _)
  · exact hget rfl rfl
  · exact hget rfl (normalize_map _)
  · exact hget rfl rfl

end ServiceSchema
