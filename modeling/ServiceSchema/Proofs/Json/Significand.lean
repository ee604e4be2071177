import ServiceSchema.Proofs.Json.PrintedDouble

/-! # Digits that do not fit
A significand takes digits until the next one would not fit. Of a number that is small but for zeros at its end, only
such zeros are left over, and the power of ten makes up for them. -/
namespace ServiceSchema.Json
open ServiceSchema.Decimal (digitsValue_lt)

/-! ## Values of digits -/

theorem digitsValue_eq_add (n : Nat) (ds : List Nat) :
    digitsValue n ds = n * 10 ^ ds.length + digitsValue 0 ds := by
  induction ds generalizing n with
  | nil =>
    rw [List.length_nil, Nat.pow_zero, Nat.mul_one]
    rfl
  | cons d ds ih =>
    have hcons (m : Nat) : digitsValue m (d :: ds) = digitsValue (m * 10 + d) ds := rfl
    rw [hcons, hcons, ih (n * 10 + d), ih (0 * 10 + d), List.length_cons]
    ring

theorem eq_zero_of_digitsValue {ds : List Nat} (h : digitsValue 0 ds = 0) : ∀ d ∈ ds, d = 0 := by
  induction ds with
  | nil => exact fun d hd => absurd hd List.not_mem_nil
  | cons d ds ih =>
    have hds : digitsValue (0 * 10 + d) ds = 0 := h
    have hd : 0 * 10 + d ≤ digitsValue (0 * 10 + d) ds := le_digitsValue _ ds
    rw [hds] at hd
    rw [Nat.le_zero.1 hd] at hds
    exact List.forall_mem_cons.2 ⟨by omega, ih hds⟩

/-- What follows the leading digits of a number with zeros at its end are zeros, if there are few other digits. -/
theorem zeros_of_multiple {s n z : Nat} {rest : List Nat} (hlt : ∀ d ∈ rest, d < 10) (hn : 0 < n) (hle : n ≤ s)
    (h : digitsValue s rest = n * 10 ^ z) :
    rest.length ≤ z ∧ (∀ d ∈ rest, d = 0) ∧ s = n * 10 ^ (z - rest.length) := by
  have hpos : 0 < 10 ^ rest.length := Nat.pow_pos (by decide)
  have hsmall : digitsValue 0 rest < 10 ^ rest.length := by
    have hbound := digitsValue_lt 0 hlt
    rwa [Nat.zero_add, Nat.one_mul] at hbound
  rw [digitsValue_eq_add] at h
  have hlength : rest.length ≤ z := by
    have hmul : n * 10 ^ rest.length ≤ n * 10 ^ z :=
      Nat.le_trans (Nat.mul_le_mul_right _ hle) (h ▸ Nat.le_add_right _ _)
    exact (Nat.pow_le_pow_iff_right (by decide)).1 (Nat.le_of_mul_le_mul_left hmul hn)
  have hsplit : n * 10 ^ z = n * 10 ^ (z - rest.length) * 10 ^ rest.length := by
    rw [Nat.mul_assoc, ← Nat.pow_add, Nat.sub_add_cancel hlength]
  have hdvd : 10 ^ rest.length ∣ digitsValue 0 rest := by
    rw [← Nat.dvd_add_right (Nat.dvd_mul_left _ s), h, hsplit]
    exact Nat.dvd_mul_left _ _
  have hzero : digitsValue 0 rest = 0 := Nat.eq_zero_of_dvd_of_lt hdvd hsmall
  rw [hzero, Nat.add_zero, hsplit] at h
  exact ⟨hlength, eq_zero_of_digitsValue hzero, Nat.eq_of_mul_eq_mul_right hpos h⟩

namespace Numeral

/-! ## Taking digits -/

theorem absorb_value (bound n : Nat) (ds : List Nat) :
    digitsValue (absorb bound n ds).1 (absorb bound n ds).2 = digitsValue n ds := by
  induction ds generalizing n with
  | nil => rfl
  | cons d ds ih =>
    rw [absorb]
    split
    · exact ih _
    · rfl

theorem absorb_le {bound n : Nat} (h : n ≤ bound) (ds : List Nat) : (absorb bound n ds).1 ≤ bound := by
  induction ds generalizing n with
  | nil => exact h
  | cons d ds ih =>
    rw [absorb]
    split
    · exact ih ‹_›
    · exact h

/-- Digits are left over only if there is no room for the next one. -/
theorem absorb_full {bound n d : Nat} {ds rest : List Nat} (h : (absorb bound n ds).2 = d :: rest) :
    bound < (absorb bound n ds).1 * 10 + d := by
  induction ds generalizing n with
  | nil => cases h
  | cons e ds ih =>
    rw [absorb] at h ⊢
    split at h
    · rename_i hroom
      rw [if_pos hroom]
      exact ih h
    · rename_i hfull
      cases h
      rw [if_neg hfull]
      exact Nat.not_le.1 hfull

theorem absorb_subset (bound n : Nat) (ds : List Nat) : (absorb bound n ds).2 ⊆ ds := by
  induction ds generalizing n with
  | nil => exact List.Subset.refl _
  | cons d ds ih =>
    rw [absorb]
    split
    · exact List.subset_cons_of_subset d (ih _)
    · exact List.Subset.refl _

theorem absorb_of_full {bound n : Nat} (h : bound < n * 10) (ds : List Nat) : absorb bound n ds = (n, ds) := by
  cases ds with
  | nil => rfl
  | cons d ds => rw [absorb, if_neg (by omega)]

theorem absorb_append_of_nil {bound n s : Nat} {ds : List Nat} (h : absorb bound n ds = (s, [])) (es : List Nat) :
    absorb bound n (ds ++ es) = absorb bound s es := by
  induction ds generalizing n with
  | nil =>
    cases h
    rfl
  | cons d ds ih =>
    rw [absorb] at h
    split at h
    · rw [List.cons_append, absorb, if_pos ‹_›, ih h]
    · cases h

theorem absorb_append_of_cons {bound n s d : Nat} {ds rest : List Nat} (h : absorb bound n ds = (s, d :: rest))
    (es : List Nat) : absorb bound n (ds ++ es) = (s, d :: rest ++ es) := by
  induction ds generalizing n with
  | nil => cases h
  | cons e ds ih =>
    rw [absorb] at h
    split at h
    · rw [List.cons_append, absorb, if_pos ‹_›, ih h]
    · rename_i hfull
      cases h
      rw [List.cons_append, absorb, if_neg hfull]

/-! ## Significands -/

/-- The point does not matter to the significand, if only zeros are left over. -/
theorem parts_of_absorb {whole fraction rest : List Nat} {s : Nat}
    (h : absorb significandBound 0 (whole ++ fraction) = (s, rest)) (hzeros : ∀ d ∈ rest, d = 0) :
    parts whole fraction = (s, (rest.length : Int) - fraction.length) := by
  obtain ⟨w, left, hw⟩ : ∃ w left, absorb significandBound 0 whole = (w, left) := ⟨_, _, rfl⟩
  cases left with
  | nil =>
    rw [absorb_append_of_nil hw] at h
    have hlength : rest.length ≤ fraction.length := by
      have hle := absorb_length significandBound w fraction
      rwa [h] at hle
    simp only [parts, hw, h, Prod.mk.injEq, true_and, List.length_nil]
    omega
  | cons d left =>
    rw [absorb_append_of_cons hw] at h
    cases h
    obtain rfl : d = 0 := hzeros d (by simp)
    have hfull : significandBound < s * 10 := by
      have hroom := absorb_full (show (absorb significandBound 0 whole).2 = 0 :: left by rw [hw])
      rwa [hw] at hroom
    simp only [parts, hw, absorb_of_full hfull, Prod.mk.injEq, true_and, List.length_append]
    omega

/-- The significand of a number that is small but for zeros at its end has as many of these zeros as fit. -/
theorem parts_of_multiple {whole fraction : List Nat} {n z : Nat} (hlt : ∀ d ∈ whole ++ fraction, d < 10) (hn : 0 < n)
    (hsmall : n * 10 ≤ significandBound) (h : digitsValue 0 (whole ++ fraction) = n * 10 ^ z) :
    ∃ j ≤ z, parts whole fraction = (n * 10 ^ j, (z : Int) - j - fraction.length) ∧
      n * 10 ^ j ≤ significandBound ∧ (j < z → significandBound < n * 10 ^ (j + 1)) := by
  obtain ⟨s, rest, habsorb⟩ : ∃ s rest, absorb significandBound 0 (whole ++ fraction) = (s, rest) := ⟨_, _, rfl⟩
  have hvalue : digitsValue s rest = n * 10 ^ z := by
    have hvalue := absorb_value significandBound 0 (whole ++ fraction)
    rwa [habsorb, h] at hvalue
  have hle : s ≤ significandBound := by
    have hle := absorb_le (Nat.zero_le significandBound) (whole ++ fraction)
    rwa [habsorb] at hle
  have hfull {d : Nat} {ds : List Nat} (hrest : rest = d :: ds) : significandBound < s * 10 + d := by
    have hfull := absorb_full (show (absorb significandBound 0 (whole ++ fraction)).2 = d :: ds by rw [habsorb, hrest])
    rwa [habsorb] at hfull
  have hrest : ∀ d ∈ rest, d < 10 := by
    intro d hd
    have hsubset := absorb_subset significandBound 0 (whole ++ fraction)
    rw [habsorb] at hsubset
    exact hlt d (hsubset hd)
  have hns : n ≤ s := by
    cases hcases : rest with
    | nil =>
      rw [hcases] at hvalue
      exact Nat.le_trans (Nat.le_mul_of_pos_right n (Nat.pow_pos (by decide))) (Nat.le_of_eq hvalue.symm)
    | cons d ds =>
      have hd := hrest d (by simp [hcases])
      have hroom := hfull hcases
      omega
  obtain ⟨hlength, hzeros, hs⟩ := zeros_of_multiple hrest hn hns hvalue
  refine ⟨z - rest.length, Nat.sub_le _ _, ?_, hs ▸ hle, fun hj => ?_⟩
  · rw [parts_of_absorb habsorb hzeros, hs]
    simp only [Prod.mk.injEq, true_and]
    omega
  · obtain ⟨d, ds, hcases⟩ := List.exists_cons_of_ne_nil (show rest ≠ [] by rintro rfl; simp at hj)
    have hroom := hfull hcases
    rw [hzeros d (by simp [hcases]), Nat.add_zero, hs, Nat.mul_assoc, ← Nat.pow_succ] at hroom
    exact hroom

end Numeral
end ServiceSchema.Json
