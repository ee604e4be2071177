import ServiceSchema.Json.Value

/-! # The structure of JSON values
Induction over values, the order of members, and the measures of a value: how deep it is, how much it
weighs, and which numbers and keys are in it. A value whose members are in any order stands for the document
with the same members in theirs; `normalize` is that document. -/
namespace ServiceSchema.Json

/-- Induction over a value, with the hypothesis for every item and every member. -/
@[elab_as_elim, induction_eliminator]
theorem Value.induction {motive : Value → Prop}
    (null : motive .null)
    (bool : ∀ b, motive (.bool b))
    (number : ∀ n, motive (.number n))
    (string : ∀ s, motive (.string s))
    (array : ∀ items : List Value, (∀ v ∈ items, motive v) → motive (.array items))
    (object : ∀ members : Members, (∀ m ∈ members, motive m.2) → motive (.object members)) :
    ∀ v, motive v :=
  @Value.rec motive (fun items => ∀ v ∈ items, motive v) (fun members => ∀ m ∈ members, motive m.2)
    (fun m => motive m.2) null bool number string array object
    (fun _ h => absurd h List.not_mem_nil)
    (fun _ _ hv ih w hw => (List.mem_cons.1 hw).elim (fun h => h ▸ hv) (ih w))
    (fun _ h => absurd h List.not_mem_nil)
    (fun _ _ hm ih n hn => (List.mem_cons.1 hn).elim (fun h => h ▸ hm) (ih n))
    (fun _ _ hv => hv)

/-! ## Members -/
namespace Members

theorem mem_of_mem_insert {key : String} {value : Value} {ms : Members} {m : String × Value}
    (h : m ∈ insert key value ms) : m = (key, value) ∨ m ∈ ms := by
  induction ms with
  | nil => simpa [insert] using h
  | cons n ms ih =>
    obtain ⟨k, v⟩ := n
    simp only [insert] at h
    split at h
    · simpa using h
    · split at h
      · rcases List.mem_cons.1 h with h | h
        · exact .inl h
        · exact .inr (List.mem_cons_of_mem _ h)
      · rcases List.mem_cons.1 h with h | h
        · exact .inr (h ▸ List.mem_cons_self)
        · exact (ih h).imp_right (List.mem_cons_of_mem _)

theorem insert_sorted (key : String) (value : Value) {ms : Members} (h : Sorted ms) :
    Sorted (insert key value ms) := by
  induction ms with
  | nil => exact List.pairwise_singleton _ _
  | cons m ms ih =>
    obtain ⟨k, v⟩ := m
    obtain ⟨hk, hms⟩ := List.pairwise_cons.1 h
    simp only [insert]
    split
    · rename_i hlt
      refine List.pairwise_cons.2 ⟨fun n hn => ?_, h⟩
      rcases List.mem_cons.1 hn with rfl | hn
      · exact hlt
      · exact String.lt_trans hlt (hk n hn)
    · split
      · rename_i heq
        exact List.pairwise_cons.2 ⟨fun n hn => heq ▸ hk n hn, hms⟩
      · rename_i hlt hne
        have hgt : k < key := Decidable.byContradiction fun hgt =>
          hne (String.le_antisymm (String.not_lt.1 hgt) (String.not_lt.1 hlt))
        refine List.pairwise_cons.2 ⟨fun n hn => ?_, ih hms⟩
        rcases mem_of_mem_insert hn with rfl | hn
        · exact hgt
        · exact hk n hn

/-- A key beyond all others goes to the end. -/
theorem insert_eq_append {key : String} {value : Value} {ms : Members} (h : ∀ m ∈ ms, m.1 < key) :
    insert key value ms = ms ++ [(key, value)] := by
  induction ms with
  | nil => rfl
  | cons m ms ih =>
    obtain ⟨k, v⟩ := m
    have hk : k < key := h (k, v) List.mem_cons_self
    have hlt : ¬ key < k := String.lt_asymm hk
    have hne : key ≠ k := fun he => String.lt_irrefl k (he ▸ hk)
    simp only [insert, hlt, hne, if_false, List.cons_append]
    rw [ih fun n hn => h n (List.mem_cons_of_mem _ hn)]

/-- Members put in one after the other, the last of several values for one key staying. -/
def insertAll (acc : Members) (ms : Members) : Members := ms.foldl (fun acc m => acc.insert m.1 m.2) acc

@[simp] theorem insertAll_nil (acc : Members) : insertAll acc [] = acc := rfl

@[simp] theorem insertAll_cons (acc ms : Members) (m : String × Value) :
    insertAll acc (m :: ms) = insertAll (acc.insert m.1 m.2) ms := rfl

theorem insertAll_of_sorted (acc ms : Members) (h : Sorted (acc ++ ms)) : insertAll acc ms = acc ++ ms := by
  induction ms generalizing acc with
  | nil => simp
  | cons m ms ih =>
    have hm : ∀ n ∈ acc, n.1 < m.1 := fun n hn =>
      (List.pairwise_append.1 h).2.2 n hn m List.mem_cons_self
    have happ : acc ++ m :: ms = (acc ++ [m]) ++ ms := by simp
    rw [insertAll_cons, insert_eq_append hm, happ]
    exact ih _ (happ ▸ h)

theorem insertAll_sorted {acc : Members} (ms : Members) (h : Sorted acc) : Sorted (insertAll acc ms) := by
  induction ms generalizing acc with
  | nil => exact h
  | cons m ms ih => exact ih (insert_sorted m.1 m.2 h)

theorem mem_of_mem_insertAll {acc ms : Members} {m : String × Value} (h : m ∈ insertAll acc ms) : m ∈ acc ∨ m ∈ ms := by
  induction ms generalizing acc with
  | nil => exact .inl h
  | cons n ms ih =>
    rcases ih h with h | h
    · rcases mem_of_mem_insert h with rfl | h
      · exact .inr List.mem_cons_self
      · exact .inl h
    · exact .inr (List.mem_cons_of_mem _ h)

theorem insert_perm {key : String} {ms : Members} (h : key ∉ ms.map Prod.fst) (value : Value) :
    (insert key value ms).Perm ((key, value) :: ms) := by
  induction ms with
  | nil => exact .refl _
  | cons m ms ih =>
    obtain ⟨k, v⟩ := m
    rw [List.map_cons, List.mem_cons, not_or] at h
    simp only [insert, h.1, if_false]
    split
    · exact .refl _
    · exact ((ih h.2).cons _).trans (.swap _ _ _)

theorem insertAll_perm {acc ms : Members} (h : ((acc ++ ms).map Prod.fst).Nodup) :
    (insertAll acc ms).Perm (acc ++ ms) := by
  induction ms generalizing acc with
  | nil => simp
  | cons m ms ih =>
    have hmiddle : (acc ++ m :: ms).Perm (m :: (acc ++ ms)) := List.perm_middle
    have hnodup := (hmiddle.map Prod.fst).nodup_iff.1 h
    rw [List.map_cons, List.nodup_cons, List.map_append, List.mem_append, not_or] at hnodup
    have hinsert := (insert_perm hnodup.1.1 m.2).append_right ms
    have hkeys := (hinsert.map Prod.fst).nodup_iff.2 ((hmiddle.map Prod.fst).nodup_iff.1 h)
    exact ((ih hkeys).trans hinsert).trans hmiddle.symm

/-- Members with distinct keys can be put in in any order. -/
theorem insertAll_eq_of_perm {ms ns : Members} (h : ms.Perm ns) (hkeys : (ms.map Prod.fst).Nodup) :
    insertAll [] ms = insertAll [] ns := by
  have hms : (insertAll [] ms).Perm ms := insertAll_perm hkeys
  have hns : (insertAll [] ns).Perm ns := insertAll_perm ((h.map Prod.fst).nodup_iff.1 hkeys)
  have hsorted (ls : Members) : Sorted (insertAll [] ls) := insertAll_sorted ls .nil
  exact (hms.trans (h.trans hns.symm)).eq_of_pairwise
    (fun m n _ _ hmn hnm => absurd hnm (String.lt_asymm hmn)) (hsorted ms) (hsorted ns)

/-! ### Look-up -/

theorem get?_insert_of_ne {key k : String} (h : key ≠ k) (v : Value) (ms : Members) :
    get? key (insert k v ms) = get? key ms := by
  induction ms with
  | nil => simp [insert, get?, Ne.symm h]
  | cons m ms ih =>
    obtain ⟨l, w⟩ := m
    simp only [insert]
    split
    · simp [get?, Ne.symm h]
    · split
      · rename_i heq
        simp [get?, ← heq, Ne.symm h]
      · simp [get?, ih]

theorem get?_eq_none {key : String} {ms : Members} (h : key ∉ ms.map Prod.fst) : get? key ms = none := by
  induction ms with
  | nil => rfl
  | cons m ms ih =>
    rw [List.map_cons, List.mem_cons, not_or] at h
    rw [get?, if_neg (Ne.symm h.1), ih h.2]

/-- With distinct keys it does not matter in which order members are put in. -/
theorem get?_insertAll {ms : Members} (h : (ms.map Prod.fst).Nodup) (acc : Members) (key : String) :
    get? key (insertAll acc ms) = (get? key ms).or (get? key acc) := by
  induction ms generalizing acc with
  | nil => rfl
  | cons m ms ih =>
    obtain ⟨k, v⟩ := m
    obtain ⟨hk, hms⟩ := List.nodup_cons.1 h
    rw [insertAll_cons, ih hms, get?]
    split
    · rename_i heq
      subst heq
      rw [get?_eq_none hk, get?_insert_self]
      rfl
    · rename_i hne
      rw [get?_insert_of_ne (Ne.symm hne)]

theorem mem_of_get? {key : String} {v : Value} {ms : Members} (h : get? key ms = some v) : (key, v) ∈ ms := by
  induction ms with
  | nil => cases h
  | cons m ms ih =>
    simp only [get?] at h
    split at h
    · rename_i heq
      cases h
      exact heq ▸ List.mem_cons_self
    · exact List.mem_cons_of_mem _ (ih h)

end Members

/-! ## Views of a value -/
namespace Value

def subvalues : Value → List Value
  | .array items => .array items :: subvaluesItems items
  | .object members => .object members :: subvaluesMembers members
  | v => [v]
where
  subvaluesItems : List Value → List Value
  | [] => []
  | v :: rest => v.subvalues ++ subvaluesItems rest
  subvaluesMembers : List (String × Value) → List Value
  | [] => []
  | (_, v) :: rest => v.subvalues ++ subvaluesMembers rest

theorem mem_subvaluesItems {w : Value} {items : List Value} :
    w ∈ subvalues.subvaluesItems items ↔ ∃ v ∈ items, w ∈ v.subvalues := by
  induction items with
  | nil => simp [subvalues.subvaluesItems]
  | cons v rest ih => simp [subvalues.subvaluesItems, ih]

theorem mem_subvaluesMembers {w : Value} {members : Members} :
    w ∈ subvalues.subvaluesMembers members ↔ ∃ m ∈ members, w ∈ m.2.subvalues := by
  induction members with
  | nil => simp [subvalues.subvaluesMembers]
  | cons m rest ih => simp [subvalues.subvaluesMembers, ih]

theorem mem_subvalues_array {w : Value} {items : List Value} :
    w ∈ (Value.array items).subvalues ↔ w = .array items ∨ ∃ v ∈ items, w ∈ v.subvalues := by
  simp [subvalues, mem_subvaluesItems]

theorem mem_subvalues_object {w : Value} {members : Members} :
    w ∈ (Value.object members).subvalues ↔ w = .object members ∨ ∃ m ∈ members, w ∈ m.2.subvalues := by
  simp [subvalues, mem_subvaluesMembers]

/-- What passes from a container to what is in it holds of all values within. -/
theorem forall_subvalues {P : Value → Prop} (hitem : ∀ items, P (.array items) → ∀ v ∈ items, P v)
    (hmember : ∀ members, P (.object members) → ∀ m ∈ members, P m.2) {v : Value} (h : P v) :
    ∀ w ∈ v.subvalues, P w := by
  intro w hw
  induction v with
  | null | bool | number | string =>
    cases List.mem_singleton.1 hw
    exact h
  | array items ih =>
    rcases mem_subvalues_array.1 hw with rfl | ⟨v, hv, hw⟩
    · exact h
    · exact ih v hv (hitem items h v hv) hw
  | object members ih =>
    rcases mem_subvalues_object.1 hw with rfl | ⟨m, hm, hw⟩
    · exact h
    · exact ih m hm (hmember members h m hm) hw

theorem sorted_array {items : List Value} : (Value.array items).Sorted ↔ ∀ v ∈ items, v.Sorted := by
  simp only [Sorted]
  induction items with
  | nil => simp [Sorted.sortedItems]
  | cons v rest ih => simp [Sorted.sortedItems, ih]

theorem sorted_object {members : Members} :
    (Value.object members).Sorted ↔ members.Sorted ∧ ∀ m ∈ members, m.2.Sorted := by
  have h (ms : Members) : Sorted.sortedMembers ms ↔ ∀ m ∈ ms, m.2.Sorted := by
    induction ms with
    | nil => simp [Sorted.sortedMembers]
    | cons m rest ih => simp [Sorted.sortedMembers, ih]
  simp only [Sorted, h]

theorem depth_array_le {items : List Value} {n : Nat} :
    (Value.array items).depth ≤ n + 1 ↔ ∀ v ∈ items, v.depth ≤ n := by
  simp only [depth, Nat.add_le_add_iff_right]
  induction items with
  | nil => simp [depth.depthItems]
  | cons v rest ih => simp only [depth.depthItems, Nat.max_le, List.forall_mem_cons, ih]

theorem depth_object_le {members : Members} {n : Nat} :
    (Value.object members).depth ≤ n + 1 ↔ ∀ m ∈ members, m.2.depth ≤ n := by
  simp only [depth, Nat.add_le_add_iff_right]
  induction members with
  | nil => simp [depth.depthMembers]
  | cons m rest ih => simp only [depth.depthMembers, Nat.max_le, List.forall_mem_cons, ih]

/-! ## Weight -/

/-- How many bytes of text a value needs at least: one for every value and every key, and those of its
strings. -/
def weight : Value → Nat
  | .string s => s.utf8ByteSize + 1
  | .array items => weightItems items + 1
  | .object members => weightMembers members + 1
  | _ => 1
where
  weightItems : List Value → Nat
  | [] => 0
  | v :: rest => v.weight + weightItems rest
  weightMembers : List (String × Value) → Nat
  | [] => 0
  | (k, v) :: rest => k.utf8ByteSize + 1 + v.weight + weightMembers rest

open weight

theorem weight_pos (v : Value) : 0 < v.weight := by cases v <;> simp [weight]

theorem length_le_weightItems (items : List Value) : items.length ≤ weightItems items := by
  induction items with
  | nil => simp
  | cons v rest ih =>
    have := v.weight_pos
    simp only [weightItems, List.length_cons]
    omega

theorem length_le_weightMembers (members : Members) : members.length ≤ weightMembers members := by
  induction members with
  | nil => simp
  | cons m rest ih =>
    simp only [weightMembers, List.length_cons]
    omega

theorem weight_le_weightItems {v : Value} {items : List Value} (h : v ∈ items) :
    v.weight ≤ weightItems items := by
  induction items with
  | nil => exact absurd h List.not_mem_nil
  | cons w rest ih =>
    simp only [weightItems]
    rcases List.mem_cons.1 h with rfl | h
    · omega
    · have := ih h
      omega

theorem weight_le_weightMembers {m : String × Value} {members : Members} (h : m ∈ members) :
    m.1.utf8ByteSize + 1 + m.2.weight ≤ weightMembers members := by
  induction members with
  | nil => exact absurd h List.not_mem_nil
  | cons n rest ih =>
    simp only [weightMembers]
    rcases List.mem_cons.1 h with rfl | h
    · omega
    · have := ih h
      omega

theorem weightItems_reverse (items : List Value) : weightItems items.reverse = weightItems items := by
  have happ (a b : List Value) : weightItems (a ++ b) = weightItems a + weightItems b := by
    induction a with
    | nil => simp [weightItems]
    | cons v a ih => simp [weightItems, ih, Nat.add_assoc]
  induction items with
  | nil => rfl
  | cons v rest ih => simp [happ, weightItems, ih, Nat.add_comm]

theorem weightMembers_insert (key : String) (value : Value) (ms : Members) :
    weightMembers (ms.insert key value) ≤ key.utf8ByteSize + 1 + value.weight + weightMembers ms := by
  induction ms with
  | nil => simp [Members.insert, weightMembers]
  | cons m ms ih =>
    simp only [Members.insert]
    split
    · simp [weightMembers]
    · split
      · simp only [weightMembers]
        omega
      · simp only [weightMembers]
        omega

theorem weightMembers_insertAll (acc ms : Members) : weightMembers (acc.insertAll ms)
    ≤ weightMembers acc + weightMembers ms := by
  induction ms generalizing acc with
  | nil => exact Nat.le_refl _
  | cons m ms ih =>
    have hinsert := weightMembers_insert m.1 m.2 acc
    have hrest := ih (acc.insert m.1 m.2)
    simp only [Members.insertAll_cons, weightMembers]
    omega

/-! ## Normal form -/

/-- The document with the members of every object in order. -/
def normalize : Value → Value
  | .array items => .array (normalizeItems items)
  | .object members => .object (Members.insertAll [] (normalizeMembers members))
  | v => v
where
  normalizeItems : List Value → List Value
  | [] => []
  | v :: rest => v.normalize :: normalizeItems rest
  normalizeMembers : List (String × Value) → List (String × Value)
  | [] => []
  | (k, v) :: rest => (k, v.normalize) :: normalizeMembers rest

open normalize

theorem normalizeItems_of_sorted {items : List Value} (h : ∀ v ∈ items, v.normalize = v) :
    normalizeItems items = items := by
  induction items with
  | nil => rfl
  | cons v rest ih =>
    rw [normalizeItems, h v List.mem_cons_self, ih fun w hw => h w (List.mem_cons_of_mem _ hw)]

theorem normalizeMembers_of_sorted {members : Members} (h : ∀ m ∈ members, m.2.normalize = m.2) :
    normalizeMembers members = members := by
  induction members with
  | nil => rfl
  | cons m rest ih =>
    rw [normalizeMembers, h m List.mem_cons_self, ih fun n hn => h n (List.mem_cons_of_mem _ hn)]

/-- Documents are in normal form. -/
theorem normalize_of_sorted {v : Value} (h : v.Sorted) : v.normalize = v := by
  induction v with
  | null | bool | number | string => rfl
  | array items ih =>
    have hs := sorted_array.1 h
    rw [normalize, normalizeItems_of_sorted fun v hv => ih v hv (hs v hv)]
  | object members ih =>
    obtain ⟨hms, hs⟩ := sorted_object.1 h
    rw [normalize, normalizeMembers_of_sorted fun m hm => ih m hm (hs m hm)]
    rw [Members.insertAll_of_sorted [] members hms, List.nil_append]

theorem normalizeItems_eq_map (items : List Value) : normalizeItems items = items.map normalize := by
  induction items with
  | nil => rfl
  | cons v rest ih => rw [normalizeItems, ih, List.map_cons]

theorem normalizeMembers_eq_map (members : Members) :
    normalizeMembers members = members.map fun m => (m.1, m.2.normalize) := by
  induction members with
  | nil => rfl
  | cons m rest ih => rw [normalizeMembers, ih, List.map_cons]

theorem sorted_normalize (v : Value) : v.normalize.Sorted := by
  induction v with
  | null | bool | number | string => trivial
  | array items ih =>
    rw [normalize, normalizeItems_eq_map, sorted_array, List.forall_mem_map]
    exact ih
  | object members ih =>
    rw [normalize, normalizeMembers_eq_map, sorted_object]
    refine ⟨Members.insertAll_sorted _ .nil, ?_⟩
    intro m hm
    rcases Members.mem_of_mem_insertAll hm with hm | hm
    · cases hm
    · obtain ⟨n, hn, rfl⟩ := List.mem_map.1 hm
      exact ih n hn

/-- In normal form, too, every member is found under its key. -/
theorem get?_normalize {members : Members} (h : (members.map Prod.fst).Nodup) (key : String) :
    Members.get? key (Members.insertAll [] (normalizeMembers members)) = (Members.get? key members).map normalize := by
  have hget : Members.get? key (normalizeMembers members) = (Members.get? key members).map normalize := by
    clear h
    induction members with
    | nil => rfl
    | cons m rest ih =>
      simp only [normalizeMembers, Members.get?]
      split
      · rfl
      · exact ih
  have hkeys : (normalizeMembers members).map Prod.fst = members.map Prod.fst := by
    rw [normalizeMembers_eq_map, List.map_map]
    rfl
  rw [Members.get?_insertAll (hkeys ▸ h), hget]
  exact Option.or_none

end Value
end ServiceSchema.Json
