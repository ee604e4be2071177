import ServiceSchema.Proofs.Json.Number
import ServiceSchema.Shape

/-! # Documents of the service shape
The shape of a service said in terms of the document alone. A document has no violation just when it has this
shape. -/
namespace ServiceSchema.Shape
open ServiceSchema.Json

def IntegerWithin (bound : Nat) (v : Value) : Prop := ∃ n k, v = .number n ∧ k ≤ bound ∧ n.Denotes k

def IsString (v : Value) : Prop := ∃ s, v = .string s

/-- The member `key` is there, and is as asked for. -/
def Has (ms : Members) (key : String) (p : Value → Prop) : Prop := ∃ v, Members.get? key ms = some v ∧ p v

def MayHave (ms : Members) (key : String) (p : Value → Prop) : Prop := ∀ v, Members.get? key ms = some v → p v

structure EntryMembers (ms : Members) : Prop where
  id : Has ms "id" (IntegerWithin 65535)
  name : Has ms "name" IsString
  type : Has ms "type" IsString
  encoding : MayHave ms "encoding" fun v => v = .null ∨ IsString v

def EntryShaped (v : Value) : Prop := ∃ ms, v = .object ms ∧ EntryMembers ms

def EntryList (v : Value) : Prop := ∃ vs, v = .array vs ∧ ∀ v ∈ vs, EntryShaped v

structure ServiceMembers (ms : Members) : Prop where
  type : Has ms "type" IsString
  version : Has ms "version" (IntegerWithin 4294967295)
  inputs : Has ms "inputs" EntryList
  outputs : Has ms "outputs" EntryList
  registers : MayHave ms "registers" fun v => v = .null ∨ EntryList v

/-- An object with the members of a service; it may have others. -/
def ServiceShaped (v : Value) : Prop := ∃ ms, v = .object ms ∧ ServiceMembers ms

/-! ## Rules that are kept -/

def Rule.Kept (r : Rule) (v : Value) : Prop := r.violations v = []

theorem kindViolations_eq_nil {kinds : List Kind} {v : Value} :
    kindViolations kinds v = [] ↔ ∃ k ∈ kinds, k.admits v := by
  simp only [kindViolations, ← List.any_eq_true]
  split
  · simp [*]
  · simp [*]

theorem admits_array {v : Value} : Kind.array.admits v ↔ ∃ vs, v = .array vs := by
  cases v <;> simp [Kind.admits]

theorem admits_string {v : Value} : Kind.string.admits v ↔ IsString v := by
  cases v <;> simp [Kind.admits, IsString]

theorem admits_null {v : Value} : Kind.null.admits v ↔ v = .null := by
  cases v <;> simp [Kind.admits]

theorem kept_kinds {kinds : List Kind} {v : Value} : (Rule.kinds kinds).Kept v ↔ ∃ k ∈ kinds, k.admits v := by
  rw [Rule.Kept, Rule.violations, kindViolations_eq_nil]

theorem kept_integer {bound : Nat} {v : Value} : (Rule.integer bound).Kept v ↔ IntegerWithin bound v := by
  rw [Rule.Kept, Rule.violations, List.append_eq_nil_iff, kindViolations_eq_nil]
  cases v with
  | number n =>
    have hbounds : boundViolations bound (.number n) = [] ↔ n.isAbove bound = false ∧ n.isBelow 0 = false := by
      simp [boundViolations]
    simp only [hbounds, List.mem_singleton, exists_eq_left, Kind.admits, and_assoc, Number.denotes_within]
    simp [IntegerWithin]
  | _ => simp [Kind.admits, IntegerWithin]

theorem itemViolations_eq_nil {check : Value → List Violation} {i : Nat} {vs : List Value} :
    itemViolations check i vs = [] ↔ ∀ v ∈ vs, check v = [] := by
  induction vs generalizing i with
  | nil => simp [itemViolations]
  | cons v vs ih => simp [itemViolations, ih]

theorem propertyViolations_eq_nil {properties : List (String × Rule)} {ms : Members} :
    Rule.violations.propertyViolations properties ms = [] ↔
      ∀ p ∈ properties, MayHave ms p.1 p.2.Kept := by
  induction properties with
  | nil => simp [Rule.violations.propertyViolations]
  | cons p rest ih =>
    obtain ⟨k, r⟩ := p
    simp only [Rule.violations.propertyViolations, List.append_eq_nil_iff, ih, List.forall_mem_cons]
    refine and_congr ?_ Iff.rfl
    cases hk : Members.get? k ms with
    | none => simp [MayHave, hk]
    | some v => simp [MayHave, hk, Rule.Kept]

theorem kept_list {item : Rule} {kinds : List Kind} {v : Value} :
    (Rule.list item kinds).Kept v ↔ (∃ k ∈ kinds, k.admits v) ∧ ∀ vs, v = .array vs → ∀ w ∈ vs, item.Kept w := by
  rw [← kindViolations_eq_nil]
  cases v with
  | array vs =>
    rw [Rule.Kept, Rule.violations, List.append_eq_nil_iff, itemViolations_eq_nil, and_comm]
    simp [Rule.Kept]
  | _ =>
    rw [Rule.Kept, Rule.violations]
    · simp
    · exact nofun

theorem kept_object {properties : List (String × Rule)} {required : List String} {v : Value} :
    (Rule.object properties required).Kept v ↔ ∃ ms, v = .object ms ∧
      (∀ p ∈ properties, MayHave ms p.1 p.2.Kept) ∧ ∀ k ∈ required, ∃ w, Members.get? k ms = some w := by
  cases v with
  | object ms =>
    rw [Rule.Kept, Rule.violations, List.append_eq_nil_iff, List.append_eq_nil_iff, kindViolations_eq_nil,
      propertyViolations_eq_nil]
    simp [requiredViolations, Kind.admits, Option.ne_none_iff_exists']
  | _ =>
    rw [Rule.Kept, Rule.violations]
    · simp [requiredViolations, kindViolations, Kind.admits]
    · exact nofun

theorem has_iff {ms : Members} {key : String} {p : Value → Prop} :
    Has ms key p ↔ MayHave ms key p ∧ ∃ v, Members.get? key ms = some v := by
  constructor
  · rintro ⟨v, hv, hp⟩
    exact ⟨fun w hw => by rw [hv] at hw; cases hw; exact hp, v, hv⟩
  · rintro ⟨hp, v, hv⟩
    exact ⟨v, hv, hp v hv⟩

theorem mayHave_congr {ms : Members} {key : String} {p q : Value → Prop} (h : ∀ v, p v ↔ q v) :
    MayHave ms key p ↔ MayHave ms key q :=
  forall_congr' fun v => imp_congr_right fun _ => h v

/-! ## The rules of a service -/

theorem kept_string {v : Value} : (Rule.kinds [.string]).Kept v ↔ IsString v := by
  simp only [kept_kinds, List.mem_singleton, exists_eq_left, admits_string]

theorem kept_encoding {v : Value} : (Rule.kinds [.null, .string]).Kept v ↔ v = .null ∨ IsString v := by
  simp only [kept_kinds, List.mem_cons, List.not_mem_nil, or_false, exists_eq_or_imp, exists_eq_left,
    admits_null, admits_string]

theorem kept_entry {v : Value} : entry.Kept v ↔ EntryShaped v := by
  simp only [entry, kept_object, EntryShaped]
  refine exists_congr fun ms => and_congr_right fun _ => ?_
  simp only [List.forall_mem_cons, List.not_mem_nil, false_imp_iff, implies_true, and_true]
  rw [mayHave_congr fun v => kept_encoding, mayHave_congr fun v => kept_integer, mayHave_congr fun v => kept_string,
    mayHave_congr fun v => kept_string]
  constructor
  · rintro ⟨⟨hencoding, hid, hname, htype⟩, hasId, hasName, hasType⟩
    exact ⟨has_iff.2 ⟨hid, hasId⟩, has_iff.2 ⟨hname, hasName⟩, has_iff.2 ⟨htype, hasType⟩, hencoding⟩
  · rintro ⟨hid, hname, htype, hencoding⟩
    exact ⟨⟨hencoding, (has_iff.1 hid).1, (has_iff.1 hname).1, (has_iff.1 htype).1⟩, (has_iff.1 hid).2,
      (has_iff.1 hname).2, (has_iff.1 htype).2⟩

theorem kept_entries {v : Value} : (Rule.list entry [.array]).Kept v ↔ EntryList v := by
  simp only [kept_list, kept_entry, List.mem_singleton, exists_eq_left, admits_array]
  constructor
  · rintro ⟨⟨vs, rfl⟩, h⟩
    exact ⟨vs, rfl, h vs rfl⟩
  · rintro ⟨vs, rfl, h⟩
    exact ⟨⟨vs, rfl⟩, fun _ hvs => by cases hvs; exact h⟩

theorem kept_registers {v : Value} : (Rule.list entry [.array, .null]).Kept v ↔ v = .null ∨ EntryList v := by
  have hentries := kept_entries (v := v)
  simp only [kept_list, kept_entry, List.mem_cons, List.not_mem_nil, or_false, exists_eq_or_imp, exists_eq_left,
    admits_array, admits_null] at hentries ⊢
  rw [← hentries, or_and_right, or_comm]
  refine or_congr_left ⟨fun h => h.1, fun h => ⟨h, fun vs hvs => ?_⟩⟩
  cases h.symm.trans hvs

/-- A document has no violation just when it has the shape of a service. -/
theorem firstViolation_eq_none {v : Value} : firstViolation v = none ↔ ServiceShaped v := by
  have hkept : firstViolation v = none ↔ service.Kept v := List.head?_eq_none_iff
  rw [hkept, service, kept_object, ServiceShaped]
  refine exists_congr fun ms => and_congr_right fun _ => ?_
  simp only [List.forall_mem_cons, List.not_mem_nil, false_imp_iff, implies_true, and_true]
  rw [mayHave_congr fun v => kept_entries, mayHave_congr fun v => kept_entries, mayHave_congr fun v => kept_registers,
    mayHave_congr fun v => kept_string, mayHave_congr fun v => kept_integer]
  constructor
  · rintro ⟨⟨hinputs, houtputs, hregisters, htype, hversion⟩, hasType, hasVersion, hasInputs, hasOutputs⟩
    exact ⟨has_iff.2 ⟨htype, hasType⟩, has_iff.2 ⟨hversion, hasVersion⟩, has_iff.2 ⟨hinputs, hasInputs⟩,
      has_iff.2 ⟨houtputs, hasOutputs⟩, hregisters⟩
  · rintro ⟨htype, hversion, hinputs, houtputs, hregisters⟩
    exact ⟨⟨(has_iff.1 hinputs).1, (has_iff.1 houtputs).1, hregisters, (has_iff.1 htype).1, (has_iff.1 hversion).1⟩,
      (has_iff.1 htype).2, (has_iff.1 hversion).2, (has_iff.1 hinputs).2, (has_iff.1 houtputs).2⟩

end ServiceSchema.Shape
