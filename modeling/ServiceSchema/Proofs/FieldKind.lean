import ServiceSchema.FieldKind
import ServiceSchema.Proofs.Result

/-! # Selected kinds
All that can be said of a kind that was selected for an entry: a raw one has a type that was resolved, and a
compiled one is the codec of its category for a declared type that is a C identifier. -/
namespace ServiceSchema

def StartsCIdentifier (c : Char) : Prop := ('A' ≤ c ∧ c ≤ 'Z') ∨ ('a' ≤ c ∧ c ≤ 'z') ∨ c = '_'

/-- A letter or an underscore, and then letters, underscores and digits. -/
def CIdentifier (s : String) : Prop :=
  ∃ c cs, s.toList = c :: cs ∧ StartsCIdentifier c ∧ ∀ d ∈ cs, StartsCIdentifier d ∨ ('0' ≤ d ∧ d ≤ '9')

theorem startsCIdentifier_iff {c : Char} : c.isAlpha || c = '_' ↔ StartsCIdentifier c := by
  have halpha : c.isAlpha = (decide ('A' ≤ c ∧ c ≤ 'Z') || (decide ('a' ≤ c) && decide (c ≤ 'z'))) := rfl
  simp only [halpha, StartsCIdentifier, Bool.or_eq_true, Bool.and_eq_true, decide_eq_true_eq, or_assoc]

theorem continuesCIdentifier_iff {c : Char} :
    c.isAlphanum || c = '_' ↔ StartsCIdentifier c ∨ ('0' ≤ c ∧ c ≤ '9') := by
  have halphanum : c.isAlphanum = (c.isAlpha || (decide ('0' ≤ c) && decide (c ≤ '9'))) := rfl
  rw [← startsCIdentifier_iff]
  simp only [halphanum, Bool.or_eq_true, Bool.and_eq_true, decide_eq_true_eq, or_right_comm]

theorem isCIdentifier_iff {s : String} : isCIdentifier s ↔ CIdentifier s := by
  unfold isCIdentifier CIdentifier
  cases s.toList with
  | nil => simp
  | cons c cs =>
    simp only [Bool.and_eq_true, List.all_eq_true, startsCIdentifier_iff, continuesCIdentifier_iff,
      List.cons.injEq]
    constructor
    · rintro ⟨hc, hcs⟩
      exact ⟨c, cs, ⟨rfl, rfl⟩, hc, hcs⟩
    · rintro ⟨_, _, ⟨rfl, rfl⟩, hc, hcs⟩
      exact ⟨hc, hcs⟩

theorem DeclaredType.length_pos {cs : List Char} {n : UInt32} (h : length? cs = some n) : 0 < n.toNat := by
  simp only [length?, Option.ite_none_right_eq_some, Option.some.injEq] at h
  obtain ⟨⟨-, -, hpos, hbound⟩, rfl⟩ := h
  rw [UInt32.toNat_ofNat_of_lt' hbound]
  exact hpos

theorem DeclaredType.array_length_pos {s : String} {t : Scalar} {n : UInt32} (h : resolve s = .ok (.array t n)) :
    0 < n.toNat := by
  unfold resolve at h
  split at h
  · obtain ⟨_, _, h⟩ := map_eq_ok.1 h
    cases h
  · split at h
    · cases h
    · split at h
      · cases h
      · rename_i hn
        obtain ⟨_, _, h⟩ := map_eq_ok.1 h
        cases h
        exact length_pos hn

namespace FieldKind

/-- What a selected kind is. -/
theorem select_cases {p : Profile} {c : Category} {e : Entry} {callback : String} {k : FieldKind}
    (h : select p c e callback = .ok k) :
    (∃ t, DeclaredType.resolve e.declaredType = .ok t ∧ k = ofType t) ∨
      ∃ codec, CIdentifier e.declaredType ∧ codecFor p c e.id callback e.declaredType = some codec ∧
        k = .compiled codec := by
  unfold select at h
  split at h
  · cases h
  · left
    unfold selectRaw at h
    split at h
    · cases h
      exact ⟨_, ‹_›, rfl⟩
    · cases h
  · right
    unfold selectCompiled at h
    split at h
    · cases h
    · split at h
      · cases h
      · rename_i htype
        simp only [checkCodecType] at htype
        split at htype
        · cases htype
          split at h
          · cases h
            exact ⟨_, isCIdentifier_iff.1 ‹_›, ‹_›, rfl⟩
          · cases h
        · cases htype

end FieldKind
end ServiceSchema
