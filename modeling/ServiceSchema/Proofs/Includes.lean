import Mathlib.Data.Set.Card
import Mathlib.Logic.Function.Basic
import ServiceSchema.Includes
import ServiceSchema.Proofs.Text.Utf8

/-! # Histories of two sets of operands
Two sets that are empty at first; then operands are put into them and looked for, one is merged into the other, and
they are compared, in any order. At every point each set holds the operands that have come to it, sorted and once
each, and every answer can be told from what has come to the two. -/
namespace ServiceSchema.Includes

variable {i j : Includes} {a b : String}

/-! ## One set -/

instance (a : String) (i : Includes) : Decidable (a ∈ i) := inferInstanceAs (Decidable (a ∈ i.items))

@[simp] theorem contains_eq_true : i.contains a = true ↔ a ∈ i := List.contains_iff_mem

/-- A place is free if the operand is not there: all that stand before the place are less, all behind it greater. -/
theorem isVacant_eq_true {items : List String} (h : items.Pairwise (· < ·)) : isVacant a items = true ↔ a ∉ items := by
  induction items with
  | nil => simp [isVacant]
  | cons b bs ih =>
    obtain ⟨hb, hbs⟩ := List.pairwise_cons.1 h
    simp only [isVacant]
    split
    · rename_i hab
      refine iff_of_true rfl fun ha => (List.mem_cons.1 ha).elim (String.ne_of_lt hab) fun ha => ?_
      exact String.lt_asymm hab (hb a ha)
    · split
      · simp [*]
      · rw [ih hbs, List.mem_cons, not_or, and_iff_right ‹_›]

theorem put_fst : (i.put a).1 = true ↔ a ∉ i := isVacant_eq_true i.sorted

theorem ext_iff : i = j ↔ ∀ a, a ∈ i ↔ a ∈ j := ⟨fun h _ => h ▸ Iff.rfl, eq_of_mem_iff⟩

theorem merge_eq_self : i.merge j = i ↔ ∀ a, a ∈ j → a ∈ i := by
  simp only [ext_iff, mem_merge, or_iff_left_iff_imp]

theorem size_eq_ncard (i : Includes) : i.size = {a | a ∈ i}.ncard := by
  have hset : {a | a ∈ i} = (i.items.toFinset : Set String) := by
    ext a
    simp [Membership.mem]
  rw [hset, Set.ncard_coe_finset, List.toFinset_card_of_nodup (i.sorted.imp String.ne_of_lt)]
  rfl

/-! ## Two sets -/

inductive Side where
  | first
  | second
deriving DecidableEq

def Side.other : Side → Side
  | .first => .second
  | .second => .first

inductive Step where
  | insert (side : Side) (operand : String)
  | contains (side : Side) (operand : String)
  /-- Puts the operands of the other set into this one. -/
  | merge (side : Side)
  | equal
deriving DecidableEq

def Step.after (sets : Side → Includes) : Step → Side → Includes
  | .insert side a => Function.update sets side ((sets side).put a).2
  | .merge side => Function.update sets side ((sets side).merge (sets side.other))
  | .contains _ _ | .equal => sets

def Step.answer (sets : Side → Includes) : Step → Option Bool
  | .insert side a => some ((sets side).put a).1
  | .contains side a => some ((sets side).contains a)
  | .merge _ => none
  | .equal => some (decide (sets .first = sets .second))

def run (history : List Step) : Side → Includes := history.foldl Step.after fun _ => empty

theorem run_concat (history : List Step) (s : Step) : run (history ++ [s]) = s.after (run history) := by
  rw [run, List.foldl_append]
  rfl

/-! ## What has come to a set -/

/-- An operand comes to a set by insertion, or by a merge with the other set while that one has it. -/
inductive Held : List Step → Side → String → Prop where
  | inserted {history : List Step} {side : Side} {a : String} : Held (history ++ [.insert side a]) side a
  | merged {history : List Step} {side : Side} {a : String} (there : Held history side.other a) :
      Held (history ++ [.merge side]) side a
  | kept {history : List Step} {s : Step} {side : Side} {a : String} (before : Held history side a) :
      Held (history ++ [s]) side a

variable {history : List Step} {s : Step} {side : Side}

theorem not_held_nil : ¬ Held [] side a := by
  intro h
  generalize hnil : [] = history at h
  cases h <;> simp at hnil

theorem held_concat : Held (history ++ [s]) side a ↔
    s = .insert side a ∨ (s = .merge side ∧ Held history side.other a) ∨ Held history side a := by
  constructor
  · intro h
    generalize hconcat : history ++ [s] = history' at h
    cases h with
    | inserted =>
      obtain ⟨-, rfl⟩ := List.append_singleton_inj.1 hconcat
      exact .inl rfl
    | merged there =>
      obtain ⟨rfl, rfl⟩ := List.append_singleton_inj.1 hconcat
      exact .inr (.inl ⟨rfl, there⟩)
    | kept before =>
      obtain ⟨rfl, -⟩ := List.append_singleton_inj.1 hconcat
      exact .inr (.inr before)
  · rintro (rfl | ⟨rfl, there⟩ | before)
    · exact .inserted
    · exact .merged there
    · exact .kept before

/-- What a step adds to a set. -/
theorem mem_after {sets : Side → Includes} : a ∈ s.after sets side ↔
    s = .insert side a ∨ (s = .merge side ∧ a ∈ sets side.other) ∨ a ∈ sets side := by
  cases s with
  | insert target b =>
    by_cases htarget : side = target
    · subst htarget
      simp [Step.after, eq_comm]
    · simp [Step.after, htarget, Ne.symm htarget]
  | merge target =>
    by_cases htarget : side = target
    · subst htarget
      simp [Step.after, or_comm]
    · simp [Step.after, htarget, Ne.symm htarget]
  | contains target b => simp [Step.after]
  | equal => simp [Step.after]

theorem mem_run : a ∈ run history side ↔ Held history side a := by
  induction history using List.reverseRecOn generalizing side with
  | nil => exact iff_of_false (not_mem_empty a) not_held_nil
  | append_singleton history s ih => rw [run_concat, mem_after, held_concat, ih, ih]

theorem run_merge_eq_self : run (history ++ [.merge side]) = run history ↔
    (run history side).merge (run history side.other) = run history side := by
  rw [run_concat, Step.after, Function.update_eq_self_iff]

/-- The answer is given, and it tells whether `P` holds. -/
def Tells (answer : Option Bool) (P : Prop) : Prop := ∃ b, answer = some b ∧ (b = true ↔ P)

/-- After any history the sets hold what has come to them, in the order of the bytes and once each. The next step is
answered by what they hold, and a merge changes nothing just if the other set holds nothing more. -/
theorem held_after_history (history : List Step) :
    (∀ side, (run history side).items.Pairwise (fun a b => Utf8.encode a.toList < Utf8.encode b.toList) ∧
      (∀ a, a ∈ (run history side).items ↔ Held history side a) ∧
      (run history side).size = {a | Held history side a}.ncard) ∧
    (∀ side a, Tells ((Step.insert side a).answer (run history)) (¬ Held history side a)) ∧
    (∀ side a, Tells ((Step.contains side a).answer (run history)) (Held history side a)) ∧
    Tells (Step.equal.answer (run history)) (∀ a, Held history .first a ↔ Held history .second a) ∧
    (∀ side, run (history ++ [.merge side]) = run history ↔
      ∀ a, Held history side.other a → Held history side a) := by
  refine ⟨fun side => ⟨?_, fun a => mem_run, ?_⟩, fun side a => ⟨_, rfl, ?_⟩, fun side a => ⟨_, rfl, ?_⟩,
    ⟨_, rfl, ?_⟩, fun side => ?_⟩
  · exact (run history side).sorted.imp Utf8.lt_iff_encode_lt.1
  · simp only [size_eq_ncard, mem_run]
  · rw [put_fst, mem_run]
  · rw [contains_eq_true, mem_run]
  · simp only [decide_eq_true_eq, ext_iff, mem_run]
  · simp only [run_merge_eq_self, merge_eq_self, mem_run]

/-- The two sets come to be equal, and a second insertion of one operand is told from the first. -/
example :
    let history : List Step :=
      [.insert .first "\"b.h\"", .insert .second "\"a.h\"", .merge .first, .merge .second]
    (run history .first).items = ["\"a.h\"", "\"b.h\""] ∧ Step.equal.answer (run history) = some true ∧
      (Step.insert .second "\"b.h\"").answer (run history) = some false := by
  decide

end ServiceSchema.Includes
