import ServiceSchema.Json.Pointer
import ServiceSchema.Proofs.Json.Source

/-! # One place of a document
Documents that differ in the value at one place only, and the texts of such documents. The rest of a text is read as it
was. -/
namespace ServiceSchema.Json

namespace Members

theorem insertAll_append (acc ms ns : Members) : insertAll acc (ms ++ ns) = insertAll (insertAll acc ms) ns :=
  List.foldl_append

/-- Members with other keys do not matter to what a key leads to. -/
theorem get?_insertAll_of_ne {key : String} {ms : Members} (h : ∀ m ∈ ms, m.1 ≠ key) (acc : Members) :
    get? key (insertAll acc ms) = get? key acc := by
  induction ms generalizing acc with
  | nil => rfl
  | cons m ms ih =>
    obtain ⟨hm, hms⟩ := List.forall_mem_cons.1 h
    rw [insertAll_cons, ih hms, get?_insert_of_ne hm.symm]

theorem get?_insertAll_congr {key : String} {acc acc' : Members} (h : get? key acc = get? key acc') (ms : Members) :
    get? key (insertAll acc ms) = get? key (insertAll acc' ms) := by
  induction ms generalizing acc acc' with
  | nil => exact h
  | cons m ms ih =>
    apply ih
    by_cases hkey : key = m.1
    · rw [hkey, get?_insert_self, get?_insert_self]
    · rw [get?_insert_of_ne hkey, get?_insert_of_ne hkey, h]

end Members

/-- The second value has `y` where the first one has `x`, at the place that the pointer leads to. -/
inductive Value.Exchanged (x y : Value) : Pointer → Value → Value → Prop where
  | here : Exchanged x y [] x y
  | item {p : Pointer} {v w : Value} (before after : List Value) (h : Exchanged x y p v w) :
    Exchanged x y (.index before.length :: p) (.array (before ++ v :: after)) (.array (before ++ w :: after))
  | member {p : Pointer} {v w : Value} {ms ns : Members} {key : String} (hv : Members.get? key ms = some v)
    (hw : Members.get? key ns = some w) (hothers : ∀ k ≠ key, Members.get? k ns = Members.get? k ms)
    (h : Exchanged x y p v w) : Exchanged x y (.key key :: p) (.object ms) (.object ns)

theorem Value.Exchanged.resolve {x y : Value} {p : Pointer} {v w : Value} (h : Exchanged x y p v w) :
    p.resolve w = some y := by
  induction h with
  | here => rfl
  | item before after _ ih =>
    rw [Pointer.resolve_cons, Step.follow, List.getElem?_append_right (Nat.le_refl _), Nat.sub_self]
    exact ih
  | member _ hw _ _ ih =>
    rw [Pointer.resolve_cons, Step.follow, hw]
    exact ih

/-- A scalar has nothing within. -/
theorem ScalarToken.value_flat (t : ScalarToken) : t.value.depth = 0 ∧ t.value.normalize = t.value := by
  rw [value]
  cases lexemeOf t.chars <;> exact ⟨rfl, rfl⟩

namespace Source

/-- The second tree has `y` where the first one has `x`. Of several members with one key the last one counts. -/
inductive Exchanged (x y : Source) : Pointer → Source → Source → Prop where
  | here : Exchanged x y [] x y
  | item {p : Pointer} {s t : Source} (before after : List Source) (h : Exchanged x y p s t) :
    Exchanged x y (.index before.length :: p) (.array (before ++ s :: after)) (.array (before ++ t :: after))
  | member {p : Pointer} {s t : Source} (before after : List (StringToken × Source)) (key : StringToken)
    (hlast : ∀ m ∈ after, m.1.key ≠ key.key) (h : Exchanged x y p s t) :
    Exchanged x y (.key key.key :: p) (.object (before ++ (key, s) :: after)) (.object (before ++ (key, t) :: after))

variable {x y s t : Source} {p : Pointer}

theorem sound_of_exchanged (h : Exchanged x y p s t) (hy : y.Sound) (hs : s.Sound) : t.Sound := by
  induction h with
  | here => exact hy
  | item before after _ ih =>
    simp only [sound_array, List.forall_mem_append, List.forall_mem_cons] at hs ⊢
    exact ⟨hs.1, ih hs.2.1, hs.2.2⟩
  | member before after key hlast _ ih =>
    simp only [sound_object, List.forall_mem_append, List.forall_mem_cons] at hs ⊢
    exact ⟨hs.1, ⟨hs.2.1.1, ih hs.2.1.2⟩, hs.2.2⟩

theorem depth_of_exchanged (h : Exchanged x y p s t) (hy : ∀ n, x.value.depth ≤ n → y.value.depth ≤ n) (n : Nat)
    (hs : s.value.depth ≤ n) : t.value.depth ≤ n := by
  induction h generalizing n with
  | here => exact hy n hs
  | item before after _ ih =>
    cases n with
    | zero => simp [value, Value.depth] at hs
    | succ n =>
      simp only [value, value_items, Value.depth_array_le, List.forall_mem_map, List.forall_mem_append,
        List.forall_mem_cons] at hs ⊢
      exact ⟨hs.1, ih n hs.2.1, hs.2.2⟩
  | member before after key hlast _ ih =>
    cases n with
    | zero => simp [value, Value.depth] at hs
    | succ n =>
      simp only [value, value_members, Value.depth_object_le, List.forall_mem_map, List.forall_mem_append,
        List.forall_mem_cons] at hs ⊢
      exact ⟨hs.1, ih n hs.2.1, hs.2.2⟩

theorem normalize_of_exchanged (h : Exchanged x y p s t) :
    Value.Exchanged x.value.normalize y.value.normalize p s.value.normalize t.value.normalize := by
  induction h with
  | here => exact .here
  | @item p s t before after _ ih =>
    have hitem := ih.item (before.map fun s => s.value.normalize) (after.map fun s => s.value.normalize)
    simpa [value, value_items, Value.normalize, Value.normalizeItems_eq_map, Function.comp_def] using hitem
  | @member p s t before after key hlast _ ih =>
    simp only [value, value_members, Value.normalize, Value.normalizeMembers_eq_map, List.map_append, List.map_cons,
      List.map_map, Members.insertAll_append, Members.insertAll_cons]
    have hkeys : ∀ m ∈ after.map fun m => (m.1.key, m.2.value.normalize), m.1 ≠ key.key :=
      List.forall_mem_map.2 hlast
    refine .member ?_ ?_ ?_ ih
    · exact (Members.get?_insertAll_of_ne hkeys _).trans (Members.get?_insert_self _ _ _)
    · exact (Members.get?_insertAll_of_ne hkeys _).trans (Members.get?_insert_self _ _ _)
    · intro k hk
      apply Members.get?_insertAll_congr
      rw [Members.get?_insert_of_ne hk, Members.get?_insert_of_ne hk]

/-- A text stays readable when one scalar is exchanged for another that can be read. -/
theorem toOption_readChars_of_exchanged {a b : ScalarToken} (h : Exchanged (.scalar a) (.scalar b) p s t)
    (hb : (lexemeOf b.chars).isBroken = false) {cs ds : List Char} (hcs : Layout s.tokens cs)
    (hds : Layout t.tokens ds) {v : Value} (hv : (readChars cs).toOption = some v) :
    ∃ w, (readChars ds).toOption = some w ∧ Value.Exchanged a.value b.value p v w := by
  have hs : s.Sound := by
    by_contra hs
    rw [toOption_readChars_of_not_sound hs hcs] at hv
    cases hv
  rw [toOption_readChars_of_sound hs hcs, Option.ite_none_right_eq_some] at hv
  obtain ⟨hdepth, hv⟩ := hv
  have ht : t.Sound := sound_of_exchanged h (fun u hu => by rwa [List.mem_singleton.1 hu]) hs
  have hflat : ∀ n, (Source.scalar a).value.depth ≤ n → (Source.scalar b).value.depth ≤ n :=
    fun n _ => b.value_flat.1 ▸ Nat.zero_le n
  have hexchanged := normalize_of_exchanged h
  rw [Option.some.inj hv, value, value, a.value_flat.2, b.value_flat.2] at hexchanged
  refine ⟨t.value.normalize, ?_, hexchanged⟩
  rw [toOption_readChars_of_sound ht hds, if_pos (depth_of_exchanged h hflat _ hdepth)]

end Source
end ServiceSchema.Json
