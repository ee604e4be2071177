import Mathlib.Data.List.Forall2
import ServiceSchema.Proofs.Service

/-! # What the names of codecs reach
Two profiles with the same directives may name the functions and the headers of their codecs as they like. Which
documents compile, and every error, is the same under both; and so are the services, but for these names. -/
namespace ServiceSchema
open ServiceSchema.Json

/-! ## Services without names -/

def Codec.unnamed (c : Codec) : Codec := { c with entryPoint := "", header := "" }

def FieldKind.unnamed : FieldKind → FieldKind
  | .scalar t => .scalar t
  | .array t n => .array t n
  | .compiled c => .compiled c.unnamed

def Field.unnamed (f : Field) : Field := { f with kind := f.kind.unnamed }

/-- The fields differ in the names of their codecs at most, and raw ones not at all. -/
def Field.SameButNames (f g : Field) : Prop := f.unnamed = g.unnamed ∧ (f.kind.encoding = .raw → f = g)

/-- The service with no names in its codecs, and none of the headers that they need. -/
def Service.unnamed (s : Service) : Service :=
  { s with
    inputs := s.inputs.map Field.unnamed
    outputs := s.outputs.map Field.unnamed
    registers := s.registers.map Field.unnamed
    includes := .empty }

theorem Service.fields_unnamed (s : Service) (c : Category) :
    s.unnamed.fields c = (s.fields c).map Field.unnamed := by
  cases c <;> rfl

/-- A raw field has no names to lose. -/
theorem Field.eq_of_unnamed {f g : Field} (h : f.unnamed = g.unnamed) (hraw : f.kind.encoding = .raw) : f = g := by
  obtain ⟨category, id, rawName, name, kind, callbackName, methodName, default⟩ := f
  obtain ⟨category', id', rawName', name', kind', callbackName', methodName', default'⟩ := g
  simp only [Field.unnamed, Field.mk.injEq] at h hraw ⊢
  obtain ⟨hcategory, hid, hrawName, hname, hkind, hnames⟩ := h
  refine ⟨hcategory, hid, hrawName, hname, ?_, hnames⟩
  cases kind with
  | compiled codec => cases hraw
  | scalar t =>
    cases kind' <;> cases hkind
    rfl
  | array t n =>
    cases kind' <;> cases hkind
    rfl

/-! ## Compiling without names -/

structure Profile.SameDirectives (p q : Profile) : Prop where
  raw : p.rawEncoding = q.rawEncoding
  compiled : p.compiledEncoding = q.compiledEncoding

variable {p q : Profile}

theorem ofDirective_eq (h : p.SameDirectives q) (directive : Option String) :
    Encoding.ofDirective p directive = Encoding.ofDirective q directive := by
  cases directive with
  | none => rfl
  | some d => rw [Encoding.ofDirective, Encoding.ofDirective, h.raw, h.compiled]

theorem selectCompiled_unnamed (p q : Profile) (c : Category) (e : Entry) (callback : String) :
    (FieldKind.selectCompiled p c e callback).map FieldKind.unnamed
      = (FieldKind.selectCompiled q c e callback).map FieldKind.unnamed := by
  simp only [FieldKind.selectCompiled]
  split
  · rfl
  · cases checkCodecType e.declaredType with
    | error => rfl
    | ok type => cases c <;> rfl

theorem selection_unnamed (h : p.SameDirectives q) (c : Category) (e : Entry) :
    (e.selection p c).map FieldKind.unnamed = (e.selection q c).map FieldKind.unnamed := by
  simp only [Entry.selection, FieldKind.select, ofDirective_eq h]
  cases Encoding.ofDirective q e.encoding with
  | error => rfl
  | ok encoding =>
    cases encoding with
    | raw => rfl
    | compiled => exact selectCompiled_unnamed p q c e _

/-- A field without names is made of a kind without names. -/
theorem field_unnamed (p : Profile) (c : Category) (i : Nat) (e : Entry) : (e.field p c i).map Field.unnamed
    = (((e.selection p c).map FieldKind.unnamed).map (Field.ofEntry c e)).mapError (.ofEntry c i e) := by
  rw [Entry.field]
  cases e.selection p c <;> rfl

theorem fieldsFrom_unnamed (h : p.SameDirectives q) (c : Category) (i : Nat) (es : List Entry) :
    (fieldsFrom p c i es).map (List.map Field.unnamed) = (fieldsFrom q c i es).map (List.map Field.unnamed) := by
  induction es generalizing i with
  | nil => rfl
  | cons e es ih =>
    have hcons (r : Profile) : (fieldsFrom r c i (e :: es)).map (List.map Field.unnamed)
        = (e.field r c i).map Field.unnamed >>= fun f =>
          ((fieldsFrom r c (i + 1) es).map (List.map Field.unnamed)).map (f :: ·) := by
      rw [fieldsFrom]
      cases e.field r c i with
      | error => rfl
      | ok f => cases fieldsFrom r c (i + 1) es <;> rfl
    rw [hcons p, hcons q, ih, field_unnamed, field_unnamed, selection_unnamed h]

/-- A service without names is made of fields without names. -/
theorem result_assembleService_unnamed (p : Profile) (value : Value) (d : Document) :
    (assembleService p value d).result.map Service.unnamed
      = (fieldsFrom p .input 0 d.inputs).map (List.map Field.unnamed) >>= fun inputs =>
        (fieldsFrom p .output 0 d.outputs).map (List.map Field.unnamed) >>= fun outputs =>
        (fieldsFrom p .register 0 d.registers).map (List.map Field.unnamed) >>= fun registers =>
        .ok ⟨d.serviceType, d.version, inputs, outputs, registers, .empty, value.pretty, Cbor.encode value⟩ := by
  rw [result_assembleService]
  cases fieldsFrom p .input 0 d.inputs with
  | error => rfl
  | ok inputs =>
    cases fieldsFrom p .output 0 d.outputs with
    | error => rfl
    | ok outputs => cases fieldsFrom p .register 0 d.registers <;> rfl

theorem result_compile_unnamed (h : p.SameDirectives q) (value : Value) :
    (compile p value).result.map Service.unnamed = (compile q value).result.map Service.unnamed := by
  rw [result_compile, result_compile]
  cases checkDocument value with
  | error => rfl
  | ok d =>
    change (assembleService p value d).result.map _ = (assembleService q value d).result.map _
    simp only [result_assembleService_unnamed, fieldsFrom_unnamed h]

theorem fields_of_unnamed {s t : Service} (h : s.unnamed = t.unnamed) (c : Category) :
    List.Forall₂ Field.SameButNames (s.fields c) (t.fields c) := by
  have hmap := congrArg (fun u => Service.fields u c) h
  simp only [Service.fields_unnamed] at hmap
  rw [← List.forall₂_eq_eq_eq, List.forall₂_map_left_iff, List.forall₂_map_right_iff] at hmap
  exact hmap.imp fun f g hfg => ⟨hfg, Field.eq_of_unnamed hfg⟩

/-- The names that a profile gives reach compiled fields and the headers of the service, and nothing else. -/
theorem compile_unnamed (h : p.SameDirectives q) (value : Value) :
    (∀ e, (compile p value).result = .error e ↔ (compile q value).result = .error e) ∧
    ((∃ s, (compile p value).result = .ok s) ↔ ∃ t, (compile q value).result = .ok t) ∧
    ∀ s t, (compile p value).result = .ok s → (compile q value).result = .ok t → s.unnamed = t.unnamed ∧
      ∀ c, List.Forall₂ Field.SameButNames (s.fields c) (t.fields c) := by
  have hresult := result_compile_unnamed h value
  cases hp : (compile p value).result with
  | error e =>
    cases hq : (compile q value).result with
    | error e' =>
      rw [hp, hq] at hresult
      cases hresult
      simp
    | ok t =>
      rw [hp, hq] at hresult
      cases hresult
  | ok s =>
    cases hq : (compile q value).result with
    | error e' =>
      rw [hp, hq] at hresult
      cases hresult
    | ok t =>
      rw [hp, hq] at hresult
      refine ⟨by simp, by simp, ?_⟩
      rintro _ _ ⟨⟩ ⟨⟩
      have hunnamed : s.unnamed = t.unnamed := Except.ok.inj hresult
      exact ⟨hunnamed, fields_of_unnamed hunnamed⟩

/-- A profile with names of its own for the standard directives. -/
def renamed : Profile := ⟨"raw", "zcbor", "read_", "write_", ".in.h", ".out.h"⟩

theorem compile_unnamed_motor : Profile.SameDirectives .standard renamed ∧ Profile.standard.flaw? = none ∧
    renamed.flaw? = none ∧ ∃ s t, (compile .standard motorSchema).result = .ok s ∧
      (compile renamed motorSchema).result = .ok t ∧ s.includes ≠ t.includes ∧ s.unnamed = t.unnamed := by
  have hsame : Profile.SameDirectives .standard renamed := ⟨rfl, rfl⟩
  have hstandard : ((compile .standard motorSchema).result.toOption.map fun s => s.includes.items)
      = some ["\"Setpoint_decode.h\""] := by decide +kernel
  have hrenamed : ((compile renamed motorSchema).result.toOption.map fun s => s.includes.items)
      = some ["\"Setpoint.in.h\""] := by decide +kernel
  obtain ⟨s, hs, hincludes⟩ := Option.map_eq_some_iff.1 hstandard
  obtain ⟨t, ht, hincludes'⟩ := Option.map_eq_some_iff.1 hrenamed
  have hresult := eq_ok_of_toOption hs
  have hresult' := eq_ok_of_toOption ht
  refine ⟨hsame, by decide, by decide, s, t, hresult, hresult', ?_, ?_⟩
  · intro h
    rw [h, hincludes'] at hincludes
    revert hincludes
    decide
  · exact ((compile_unnamed hsame motorSchema).2.2 s t hresult hresult').1

end ServiceSchema
