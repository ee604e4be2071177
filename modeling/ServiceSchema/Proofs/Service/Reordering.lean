import Mathlib.Data.List.Forall2
import ServiceSchema.Proofs.Service

/-! # Entries in another order
The order of the entries in a category decides the order of the fields and nothing else: a document with its
entries rearranged compiles just when the document does, to the same fields in the same rearrangement. -/
namespace ServiceSchema
open ServiceSchema.Json ServiceSchema.Shape

variable {α β : Type}

/-! ## Lists in another order -/

/-- A list in another order: `order` says which position comes first, which comes second, and so on. -/
def reorder (order : List Nat) (as : List α) : List α := order.filterMap fun i => as[i]?

def Reorders (order : List Nat) (as : List α) : Prop := order.Perm (List.range as.length)

instance (order : List Nat) (as : List α) : Decidable (Reorders order as) :=
  inferInstanceAs (Decidable (order.Perm (List.range as.length)))

theorem reorder_range (as : List α) : reorder (List.range as.length) as = as := by
  induction as with
  | nil => rfl
  | cons a as ih =>
    have htail : (List.range as.length).filterMap ((fun i => (a :: as)[i]?) ∘ Nat.succ) = as := ih
    rw [reorder, List.length_cons, List.range_succ_eq_map, List.filterMap_cons, List.getElem?_cons_zero,
      List.filterMap_map, htail]

theorem perm_reorder {order : List Nat} {as : List α} (h : Reorders order as) : (reorder order as).Perm as := by
  have hperm := List.Perm.filterMap (fun i => as[i]?) h
  rwa [← reorder, ← reorder, reorder_range] at hperm

theorem reorder_nil (order : List Nat) : reorder order ([] : List α) = [] := by
  simp [reorder]

theorem reorder_map (order : List Nat) (f : α → β) (as : List α) :
    reorder order (as.map f) = (reorder order as).map f := by
  simp [reorder, List.map_filterMap]

theorem forall₂_reorder {R : α → β → Prop} {as : List α} {bs : List β} (h : List.Forall₂ R as bs)
    (order : List Nat) : List.Forall₂ R (reorder order as) (reorder order bs) := by
  have hlen := h.length_eq
  induction order with
  | nil => exact .nil
  | cons i order ih =>
    by_cases hi : i < as.length
    · have hj : i < bs.length := hlen ▸ hi
      simp only [reorder, List.filterMap_cons, List.getElem?_eq_getElem hi, List.getElem?_eq_getElem hj]
      exact .cons (h.get hi hj) ih
    · have hj : ¬ i < bs.length := hlen ▸ hi
      simpa [reorder, List.getElem?_eq_none (Nat.le_of_not_lt hi), List.getElem?_eq_none (Nat.le_of_not_lt hj)]
        using ih

/-! ## Documents in another order -/

/-- The value of a member with the entries in it, if it is a category, in the order of that category. -/
def reorderAt (orders : Category → List Nat) (key : String) (v : Value) : Value :=
  match Category.all.find? (fun c => c.key = key), v with
  | some c, .array vs => .array (reorder (orders c) vs)
  | _, v => v

theorem find?_key (c : Category) : Category.all.find? (fun b => b.key = c.key) = some c := by
  cases c <;> decide

theorem reorderAt_array (orders : Category → List Nat) (c : Category) (vs : List Value) :
    reorderAt orders c.key (.array vs) = .array (reorder (orders c) vs) := by
  simp only [reorderAt, find?_key]

theorem reorderAt_of_not_array (orders : Category → List Nat) (key : String) {v : Value}
    (h : ∀ vs, v ≠ .array vs) : reorderAt orders key v = v := by
  unfold reorderAt
  split
  · exact absurd rfl (h _)
  · rfl

theorem reorderAt_of_no_category (orders : Category → List Nat) {key : String}
    (h : Category.all.find? (fun c => c.key = key) = none) (v : Value) : reorderAt orders key v = v := by
  simp only [reorderAt, h]

def reorderMembers (orders : Category → List Nat) (ms : Members) : Members :=
  ms.map fun m => (m.1, reorderAt orders m.1 m.2)

theorem get?_reorderMembers (orders : Category → List Nat) (ms : Members) (key : String) :
    Members.get? key (reorderMembers orders ms) = (Members.get? key ms).map (reorderAt orders key) := by
  induction ms with
  | nil => rfl
  | cons m ms ih =>
    obtain ⟨k, v⟩ := m
    change (if k = key then _ else Members.get? key (reorderMembers orders ms)) = _
    rw [ih, Members.get?]
    split
    · rename_i hk
      rw [hk]
      rfl
    · rfl

/-- Only categories are rearranged. -/
theorem get?_reorderMembers_of_no_category (orders : Category → List Nat) (ms : Members) {key : String}
    (h : Category.all.find? (fun c => c.key = key) = none) :
    Members.get? key (reorderMembers orders ms) = Members.get? key ms := by
  rw [get?_reorderMembers]
  cases Members.get? key ms with
  | none => rfl
  | some v => rw [Option.map_some, reorderAt_of_no_category orders h]

def reorderEntries (orders : Category → List Nat) : Value → Value
  | .object ms => .object (reorderMembers orders ms)
  | v => v

def ReordersEntries (orders : Category → List Nat) (v : Value) : Prop :=
  ∀ ms c vs, v = .object ms → Members.get? (Category.key c) ms = some (.array vs) → Reorders (orders c) vs

namespace Document

def reordered (orders : Category → List Nat) (d : Document) : Document where
  serviceType := d.serviceType
  version := d.version
  inputs := reorder (orders .input) d.inputs
  outputs := reorder (orders .output) d.outputs
  registers := reorder (orders .register) d.registers

theorem entries_reordered (orders : Category → List Nat) (d : Document) (c : Category) :
    (d.reordered orders).entries c = reorder (orders c) (d.entries c) := by
  cases c <;> rfl

variable {orders : Category → List Nat} {ms : Members} {d : Document}

theorem readFrom_reordered (h : ReadFrom ms d) : ReadFrom (reorderMembers orders ms) (d.reordered orders) := by
  refine ⟨?_, ?_, ?_⟩
  · rw [get?_reorderMembers_of_no_category orders ms (by decide)]
    exact h.serviceType
  · rw [get?_reorderMembers_of_no_category orders ms (by decide)]
    exact h.version
  · intro c
    rw [get?_reorderMembers, entries_reordered]
    rcases h.entries c with ⟨vs, hvs, hes⟩ | ⟨hc, hnone, hes⟩
    · refine .inl ⟨reorder (orders c) vs, ?_, forall₂_reorder hes (orders c)⟩
      rw [hvs, Option.map_some, reorderAt_array]
    · refine .inr ⟨hc, ?_, ?_⟩
      · rcases hnone with hnone | hnull
        · left
          rw [hnone, Option.map_none]
        · right
          rw [hnull, Option.map_some, reorderAt_of_not_array orders c.key (by simp)]
      · rw [hes, reorder_nil]

theorem entryList_of_reorderAt {c : Category} {v : Value} (h : ∀ vs, v = .array vs → Reorders (orders c) vs)
    (hentries : EntryList (reorderAt orders c.key v)) : EntryList v := by
  cases v with
  | array vs =>
    obtain ⟨us, hus, hshaped⟩ := hentries
    rw [reorderAt_array] at hus
    cases hus
    refine ⟨vs, rfl, ?_⟩
    intro u hu
    exact hshaped u ((perm_reorder (h vs rfl)).mem_iff.2 hu)
  | _ =>
    rw [reorderAt_of_not_array orders c.key (by simp)] at hentries
    exact hentries

theorem eq_null_of_reorderAt {key : String} {v : Value} (h : reorderAt orders key v = .null) : v = .null := by
  unfold reorderAt at h
  split at h
  · cases h
  · exact h

/-- Rearranging does not give a document the shape that it lacks. -/
theorem shaped_of_reordered {v : Value} (h : ReordersEntries orders v)
    (hshaped : ServiceShaped (reorderEntries orders v)) : ServiceShaped v := by
  cases v with
  | object ms =>
    obtain ⟨ns, hns, htype, hversion, hinputs, houtputs, hregisters⟩ := hshaped
    obtain rfl : reorderMembers orders ms = ns := Value.object.inj hns
    have hlist (c : Category) (hhas : Has (reorderMembers orders ms) c.key EntryList) : Has ms c.key EntryList := by
      obtain ⟨w, hw, hentries⟩ := hhas
      rw [get?_reorderMembers, Option.map_eq_some_iff] at hw
      obtain ⟨u, hu, rfl⟩ := hw
      refine ⟨u, hu, entryList_of_reorderAt ?_ hentries⟩
      rintro vs rfl
      exact h ms c vs rfl hu
    refine ⟨ms, rfl, ?_, ?_, hlist .input hinputs, hlist .output houtputs, ?_⟩
    · rwa [Has, get?_reorderMembers_of_no_category orders ms (by decide)] at htype
    · rwa [Has, get?_reorderMembers_of_no_category orders ms (by decide)] at hversion
    · intro w hw
      have hget := get?_reorderMembers orders ms "registers"
      rw [hw, Option.map_some] at hget
      apply (hregisters _ hget).imp eq_null_of_reorderAt
      apply entryList_of_reorderAt (c := .register)
      rintro vs rfl
      exact h ms .register vs rfl hw
  | _ => exact hshaped

theorem ids_reordered (orders : Category → List Nat) (d : Document) (c : Category) :
    (d.reordered orders).ids c = reorder (orders c) (d.ids c) := by
  rw [ids, ids, entries_reordered, reorder_map]

end Document

/-! ## Services in another order -/

variable {orders : Category → List Nat} {ms : Members} {d : Document}

/-- What there is one of for each entry, the orders rearrange as well. -/
theorem perm_reorder_category (h : ReordersEntries orders (.object ms)) (hfrom : Document.ReadFrom ms d)
    (c : Category) (as : List α) (hlen : as.length = (d.entries c).length) : (reorder (orders c) as).Perm as := by
  rcases hfrom.entries c with ⟨vs, hvs, hes⟩ | ⟨-, -, hes⟩
  · apply perm_reorder
    rw [Reorders, hlen, ← hes.length_eq]
    exact h ms c vs rfl hvs
  · rw [hes, List.length_nil, List.length_eq_zero_iff] at hlen
    rw [hlen, reorder_nil]

theorem compiles_rightUnique (p : Profile) (c : Category) : Relator.RightUnique (Field.Compiles p c) := by
  rintro e f g ⟨k, hk, rfl⟩ ⟨l, hl, rfl⟩
  cases hk.symm.trans hl
  rfl

theorem exists_compile_reordered (p : Profile) (h : ReordersEntries orders (.object ms))
    (hfrom : Document.ReadFrom ms d) : (∃ s, (compile p (.object ms)).result = .ok s) ↔
      ∃ t, (compile p (.object (reorderMembers orders ms))).result = .ok t := by
  have hentries (c : Category) := perm_reorder_category h hfrom c (d.entries c) rfl
  have hids (c : Category) := perm_reorder_category h hfrom c (d.ids c) (List.length_map _)
  rw [exists_compile_of_readFrom hfrom, exists_compile_of_readFrom (Document.readFrom_reordered hfrom)]
  simp only [Document.ids_reordered, Document.entries_reordered, (hids _).nodup_iff, (hentries _).mem_iff]

/-- Compiling has no regard to the order of the entries but for the order of the fields. -/
theorem compile_reordered (p : Profile) {v : Value} (h : ReordersEntries orders v) :
    ((∃ s, (compile p v).result = .ok s) ↔ ∃ t, (compile p (reorderEntries orders v)).result = .ok t) ∧
    ∀ s t, (compile p v).result = .ok s → (compile p (reorderEntries orders v)).result = .ok t →
      (∀ c, t.fields c = reorder (orders c) (s.fields c)) ∧ t.serviceType = s.serviceType ∧ t.version = s.version ∧
        t.className = s.className ∧ t.interfaceClassName = s.interfaceClassName ∧ t.includes = s.includes := by
  by_cases hshape : ServiceShaped v
  · obtain ⟨ms, d, rfl, -, hfrom⟩ := Document.ofValue_of_shaped hshape
    refine ⟨exists_compile_reordered p h hfrom, ?_⟩
    intro s t hs ht
    obtain ⟨-, hs⟩ := (compile_eq_ok_of_readFrom hfrom).1 hs
    obtain ⟨-, ht⟩ := (compile_eq_ok_of_readFrom (Document.readFrom_reordered hfrom)).1 ht
    obtain ⟨hfields, htype, hversion, hincludes, -, -⟩ := assembleService_eq_ok.1 hs
    obtain ⟨hfields', htype', hversion', hincludes', -, -⟩ := assembleService_eq_ok.1 ht
    have hreordered (c : Category) : t.fields c = reorder (orders c) (s.fields c) := by
      have hcompiles := hfields' c
      rw [Document.entries_reordered] at hcompiles
      exact (compiles_rightUnique p c).forall₂ hcompiles (forall₂_reorder (hfields c) (orders c))
    have hperm (c : Category) := perm_reorder_category h hfrom c (s.fields c) (hfields c).length_eq.symm
    have hsameType : t.serviceType = s.serviceType := htype'.trans htype.symm
    refine ⟨hreordered, hsameType, hversion'.trans hversion.symm, ?_, ?_, ?_⟩
    · rw [Service.className, hsameType, Service.className]
    · rw [Service.interfaceClassName, hsameType, Service.interfaceClassName]
    · rw [hincludes, hincludes']
      apply Includes.eq_of_mem_iff
      intro header
      simp only [Includes.mem_addFields_empty, Service.mem_fields, hreordered, (hperm _).mem_iff]
  · have hreordered : ¬ ServiceShaped (reorderEntries orders v) := fun hs => hshape (Document.shaped_of_reordered h hs)
    obtain ⟨violation, hv⟩ := compile_of_not_shaped hshape p
    obtain ⟨violation', hv'⟩ := compile_of_not_shaped hreordered p
    rw [hv, hv']
    simp

def pumpSchema : Value := .object [
  ("inputs", .array [
    .object [("encoding", .string "zcbor"), ("id", .number (.ofWord 1)), ("name", .string "flow"),
      ("type", .string "Flow")],
    .object [("id", .number (.ofWord 2)), ("name", .string "level"), ("type", .string "float")]]),
  ("outputs", .array []),
  ("registers", .array [
    .object [("id", .number (.ofWord 7)), ("name", .string "limit"), ("type", .string "uint16_t")],
    .object [("default", .number (.ofWord 3)), ("id", .number (.ofWord 8)), ("name", .string "mode"),
      ("type", .string "uint8_t")]]),
  ("type", .string "Pump"),
  ("version", .number (.ofWord 1))]

def swapped : Category → List Nat
  | .input | .register => [1, 0]
  | .output => []

theorem reordersEntries_pump : ReordersEntries swapped pumpSchema := by
  intro ms c vs hms hvs
  cases hms
  cases c <;> cases hvs <;> decide

theorem compile_reordered_pump : ReordersEntries swapped pumpSchema ∧
    ∃ s t, (compile .standard pumpSchema).result = .ok s ∧
      (compile .standard (reorderEntries swapped pumpSchema)).result = .ok t ∧
      s.inputs.map Field.rawName = ["flow", "level"] ∧
      (∀ c, t.fields c = reorder (swapped c) (s.fields c)) ∧ t.includes = s.includes := by
  have hcompiles : ((compile .standard pumpSchema).result.toOption.map fun s => s.inputs.map Field.rawName)
      = some ["flow", "level"] := by decide +kernel
  obtain ⟨s, hs, hnames⟩ := Option.map_eq_some_iff.1 hcompiles
  have hresult := eq_ok_of_toOption hs
  obtain ⟨hiff, hsame⟩ := compile_reordered .standard reordersEntries_pump
  obtain ⟨t, ht⟩ := hiff.1 ⟨s, hresult⟩
  obtain ⟨hfields, -, -, -, -, hincludes⟩ := hsame s t hresult ht
  exact ⟨reordersEntries_pump, s, t, hresult, ht, hnames, hfields, hincludes⟩

end ServiceSchema
