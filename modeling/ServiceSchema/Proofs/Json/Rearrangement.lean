import ServiceSchema.Proofs.Json.Source

/-! # Members in another order
The order in which the members of an object are written does not matter, at any level, if their keys are distinct: two
texts of one document in different orders and layouts are read as one value, or neither is read. -/
namespace ServiceSchema.Json

namespace Source

/-- The tree with the members of some objects in another order. -/
inductive Rearranged : Source → Source → Prop where
  | refl (s : Source) : Rearranged s s
  | members {ms ns : List (StringToken × Source)} (h : ms.Perm ns) : Rearranged (.object ms) (.object ns)
  | item {s t : Source} (before after : List Source) (h : Rearranged s t) :
      Rearranged (.array (before ++ s :: after)) (.array (before ++ t :: after))
  | member {s t : Source} (before after : List (StringToken × Source)) (key : StringToken) (h : Rearranged s t) :
      Rearranged (.object (before ++ (key, s) :: after)) (.object (before ++ (key, t) :: after))
  | trans {s t u : Source} (hst : Rearranged s t) (htu : Rearranged t u) : Rearranged s u

/-- No object has two keys that are read as the same string. -/
def DistinctKeys : Source → Prop := EachObject fun ms => (ms.filterMap fun m => m.1.key?).Nodup

variable {s t : Source}

theorem sound_of_rearranged (h : Rearranged s t) : s.Sound ↔ t.Sound := by
  induction h with
  | refl => rfl
  | members h => simp only [sound_object, h.mem_iff]
  | item before after _ ih => simp only [sound_array, List.forall_mem_append, List.forall_mem_cons, ih]
  | member before after key _ ih => simp only [sound_object, List.forall_mem_append, List.forall_mem_cons, ih]
  | trans _ _ ihst ihtu => exact ihst.trans ihtu

theorem distinctKeys_of_rearranged (h : Rearranged s t) : s.DistinctKeys ↔ t.DistinctKeys := by
  induction h with
  | refl => rfl
  | members h => simp only [DistinctKeys, eachObject_object, h.mem_iff, (h.filterMap _).nodup_iff]
  | item before after _ ih =>
    rw [DistinctKeys] at ih
    simp only [DistinctKeys, eachObject_array, List.forall_mem_append, List.forall_mem_cons, ih]
  | member before after key _ ih =>
    rw [DistinctKeys] at ih
    simp only [DistinctKeys, eachObject_object, List.filterMap_append, List.filterMap_cons, List.forall_mem_append,
      List.forall_mem_cons, ih]
  | trans _ _ ihst ihtu => exact ihst.trans ihtu

/-- Nothing is nested deeper. -/
theorem depth_of_rearranged (h : Rearranged s t) (n : Nat) : s.value.depth ≤ n ↔ t.value.depth ≤ n := by
  induction h generalizing n with
  | refl => rfl
  | members h =>
    cases n with
    | zero => simp [value, Value.depth]
    | succ n =>
      simp only [value, value_members, Value.depth_object_le, List.forall_mem_map, h.mem_iff]
  | item before after _ ih =>
    cases n with
    | zero => simp [value, Value.depth]
    | succ n =>
      simp only [value, value_items, Value.depth_array_le, List.forall_mem_map, List.forall_mem_append,
        List.forall_mem_cons, ih]
  | member before after key _ ih =>
    cases n with
    | zero => simp [value, Value.depth]
    | succ n =>
      simp only [value, value_members, Value.depth_object_le, List.forall_mem_map, List.forall_mem_append,
        List.forall_mem_cons, ih]
  | trans _ _ ihst ihtu => exact (ihst n).trans (ihtu n)

/-- Keys that are not broken are distinct strings. -/
theorem keys_nodup {ms : List (StringToken × Source)} (hs : (Source.object ms).Sound)
    (hkeys : (Source.object ms).DistinctKeys) : (ms.map fun m => m.1.key).Nodup := by
  have hsome : (ms.filterMap fun m => m.1.key?) = ms.filterMap fun m => some m.1.key :=
    List.filterMap_congr fun m hm => (StringToken.lexemeOf_chars (sound_object.1 hs m hm).1).1
  have hdistinct := (eachObject_object.1 hkeys).1
  rwa [hsome, List.filterMap_eq_map'] at hdistinct

/-- With distinct keys the document is the same. -/
theorem normalize_of_rearranged (h : Rearranged s t) (hs : s.Sound) (hkeys : s.DistinctKeys) :
    s.value.normalize = t.value.normalize := by
  induction h with
  | refl => rfl
  | @members ms ns h =>
    have hnodup : ((ms.map fun m => (m.1.key, m.2.value.normalize)).map Prod.fst).Nodup := by
      rw [List.map_map]
      exact keys_nodup hs hkeys
    have hsame := Members.insertAll_eq_of_perm (h.map fun m => (m.1.key, m.2.value.normalize)) hnodup
    simp only [value, value_members, Value.normalize, Value.normalizeMembers_eq_map, List.map_map]
    exact congrArg Value.object hsame
  | item before after _ ih =>
    have hitem := ih (sound_array.1 hs _ (by simp)) (eachObject_array.1 hkeys _ (by simp))
    simp [value, value_items, Value.normalize, Value.normalizeItems_eq_map, hitem]
  | member before after key _ ih =>
    have hmember := ih (sound_object.1 hs (key, _) (by simp)).2 ((eachObject_object.1 hkeys).2 (key, _) (by simp))
    simp [value, value_members, Value.normalize, Value.normalizeMembers_eq_map, hmember]
  | trans hst _ ihst ihtu =>
    exact (ihst hs hkeys).trans (ihtu ((sound_of_rearranged hst).1 hs) ((distinctKeys_of_rearranged hst).1 hkeys))

/-- A text is read as what any other order and layout of it is read as. -/
theorem toOption_readChars_of_rearranged (h : Rearranged s t) (hkeys : s.DistinctKeys) {cs ds : List Char}
    (hcs : Layout s.tokens cs) (hds : Layout t.tokens ds) : (readChars cs).toOption = (readChars ds).toOption := by
  by_cases hs : s.Sound
  · have ht := (sound_of_rearranged h).1 hs
    rw [toOption_readChars_of_sound hs hcs, toOption_readChars_of_sound ht hds, normalize_of_rearranged h hs hkeys]
    exact if_congr (depth_of_rearranged h _) rfl rfl
  · have ht : ¬ t.Sound := fun ht => hs ((sound_of_rearranged h).2 ht)
    rw [toOption_readChars_of_not_sound hs hcs, toOption_readChars_of_not_sound ht hds]

end Source
end ServiceSchema.Json
