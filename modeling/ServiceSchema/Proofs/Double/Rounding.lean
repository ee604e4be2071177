import Mathlib.Algebra.Order.Ring.Nat
import Mathlib.Tactic.Linarith
import Mathlib.Tactic.Ring
import ServiceSchema.Double.Shortest
import ServiceSchema.Proofs.Double.Interchange

/-! # Rounding
Every quotient in the interval of a double rounds to that double. Below a power of two the quotient may have one
binary digit more than the double; rounding then carries. -/
namespace ServiceSchema.Double

/-- A half, on either side, rounds to an even quotient only. -/
theorem nearestQuotient_eq {num den m : Nat} (hden : 0 < den) (hlow : 2 * (m * den) ≤ 2 * num + den)
    (hhigh : 2 * num ≤ 2 * (m * den) + den)
    (htie : m % 2 = 0 ∨ (2 * (m * den) < 2 * num + den ∧ 2 * num < 2 * (m * den) + den)) :
    nearestQuotient num den = m := by
  have hsplit : num = num / den * den + num % den := by rw [Nat.mul_comm, Nat.div_add_mod]
  have hr : num % den < den := Nat.mod_lt _ hden
  simp only [nearestQuotient]
  generalize num / den = q at *
  generalize num % den = r at *
  have hqm : q ≤ m := by
    by_contra hlt
    have := Nat.mul_le_mul_right den (show m + 1 ≤ q by omega)
    rw [Nat.add_mul] at this
    omega
  have hmq : m ≤ q + 1 := by
    by_contra hlt
    have := Nat.mul_le_mul_right den (show q + 2 ≤ m by omega)
    rw [Nat.add_mul] at this
    omega
  rcases Nat.lt_or_ge q m with hlt | hge
  · obtain rfl : m = q + 1 := by omega
    rw [Nat.add_mul] at hlow hhigh htie
    split
    · omega
    · split <;> omega
  · obtain rfl : q = m := by omega
    split
    · rfl
    · split <;> omega

/-- A quotient with 53 binary digits in front of `scale` more. -/
theorem log2_sub_of_bounds {n scale : Nat} (hlow : scale ≠ 0 → 2 ^ (52 + scale) ≤ n) (hhigh : n < 2 ^ (53 + scale)) :
    n.log2 - 52 = scale := by
  by_cases hn : n = 0
  · have hscale : scale = 0 := by
      by_contra hne
      have hpos : 0 < 2 ^ (52 + scale) := Nat.pow_pos (by decide)
      have := hlow hne
      omega
    rw [hn, hscale, Nat.log2_zero]
  · have hlt := (Nat.log2_lt hn).2 hhigh
    by_cases hscale : scale = 0
    · omega
    · have hle := (Nat.le_log2 hn).2 (hlow hscale)
      omega

theorem ofParts?_of_eq {x : Double} {negative : Bool} {mantissa scale : Nat} (hm : x.mantissa = mantissa)
    (hs : x.scale = scale) : ofParts? negative mantissa scale = some { x with negative } := by
  subst hm hs
  exact ofParts?_self { x with negative }

/-- Where `step` is the distance between two doubles, `num` is no further than half of it away from the double, and
a full half only if the mantissa is even; downwards from a power of two it is no further than a quarter. -/
structure Near (x : Double) (num step : Nat) : Prop where
  low : 2 * (x.mantissa * step) ≤ 2 * num + step
  high : 2 * num ≤ 2 * (x.mantissa * step) + step
  power : x.mantissa = 0x10000000000000 → x.scale ≠ 0 → 4 * (x.mantissa * step) ≤ 4 * num + step
  tie : x.mantissa % 2 = 0 ∨ (2 * (x.mantissa * step) < 2 * num + step ∧ 2 * num < 2 * (x.mantissa * step) + step)

theorem near_of_contains {x : Double} {num den : Nat} (hden : 0 < den) (h : x.interval.contains den (4 * num)) :
    Near x num (den * 2 ^ x.scale) := by
  have hpos : 0 < den * 2 ^ x.scale := Nat.mul_pos hden (Nat.pow_pos (by decide))
  have hmid : 4 * x.units * den = 4 * (x.mantissa * (den * 2 ^ x.scale)) := by
    simp only [units, Nat.pow_eq]
    ring
  have hstep : 2 ^ x.scale * den = den * 2 ^ x.scale := Nat.mul_comm _ _
  simp only [Interval.contains, interval, Nat.pow_eq, beq_iff_eq, Nat.add_mul, Nat.sub_mul, hmid, Nat.mul_assoc,
    hstep] at h
  generalize hD : den * 2 ^ x.scale = step at *
  by_cases hpower : x.mantissa = 0x10000000000000 ∧ x.scale ≠ 0
  · have heven : x.mantissa % 2 = 0 := by rw [hpower.1]
    rw [if_pos hpower, if_pos heven, hstep] at h
    simp only [Bool.and_eq_true, decide_eq_true_eq] at h
    exact ⟨by omega, by omega, fun _ _ => by omega, .inl heven⟩
  · rw [if_neg hpower] at h
    have hnot (hm : x.mantissa = 0x10000000000000) (hs : x.scale ≠ 0) :
        4 * (x.mantissa * step) ≤ 4 * num + step := absurd ⟨hm, hs⟩ hpower
    rw [Nat.mul_assoc, hstep] at h
    split at h
    · simp only [Bool.and_eq_true, decide_eq_true_eq] at h
      exact ⟨by omega, by omega, hnot, .inl ‹_›⟩
    · simp only [Bool.and_eq_true, decide_eq_true_eq] at h
      exact ⟨by omega, by omega, hnot, .inr ⟨by omega, by omega⟩⟩

/-- Rounding where the step is that of the double. -/
theorem nearest_of_scale {x : Double} {num den : Nat} (hden : 0 < den) (h : Near x num (den * 2 ^ x.scale))
    (hscale : (num / den).log2 - 52 = x.scale) (negative : Bool) :
    nearest negative num den = some { x with negative } := by
  have hstep : 0 < den * 2 ^ x.scale := Nat.mul_pos hden (Nat.pow_pos (by decide))
  have hne : x.mantissa ≠ 0x20000000000000 := Nat.ne_of_lt x.mantissa_lt
  simp only [nearest, hscale, Nat.pow_eq, nearestQuotient_eq hstep h.low h.high h.tie, hne, if_false]
  exact ofParts?_of_eq rfl rfl

/-- Rounding below a power of two, where the step is half that of the double. -/
theorem nearest_of_carry {x : Double} {num den scale : Nat} (hden : 0 < den)
    (hm : x.mantissa = 0x10000000000000) (hx : x.scale = scale + 1) (h : Near x num (den * 2 ^ x.scale))
    (hbelow : num < 2 ^ 53 * (den * 2 ^ scale)) (negative : Bool) :
    nearest negative num den = some { x with negative } := by
  have hstep : 0 < den * 2 ^ scale := Nat.mul_pos hden (Nat.pow_pos (by decide))
  have hhalf : den * 2 ^ x.scale = 2 * (den * 2 ^ scale) := by
    rw [hx, Nat.pow_succ]
    ring
  have hpower := h.power hm (by omega)
  rw [hm, hhalf] at hpower
  have hscale : (num / den).log2 - 52 = scale := by
    refine log2_sub_of_bounds (fun _ => ?_) ?_
    · rw [Nat.le_div_iff_mul_le hden, Nat.pow_add, Nat.mul_assoc, Nat.mul_comm (2 ^ scale)]
      omega
    · rw [Nat.div_lt_iff_lt_mul hden, Nat.pow_add, Nat.mul_assoc, Nat.mul_comm (2 ^ scale)]
      omega
  have hquotient : nearestQuotient num (den * 2 ^ scale) = 0x20000000000000 :=
    nearestQuotient_eq hstep (by omega) (by omega) (.inl (by decide))
  simp only [nearest, hscale, Nat.pow_eq, hquotient, if_true]
  exact ofParts?_of_eq hm hx

/-- A quotient in the interval of a double rounds to it. -/
theorem nearest_of_contains {x : Double} {num den : Nat} (hden : 0 < den)
    (h : x.interval.contains den (4 * num)) (negative : Bool) :
    nearest negative num den = some { x with negative } := by
  have hnear := near_of_contains hden h
  have hm := x.mantissa_lt
  have hhigh : num / den < 2 ^ (53 + x.scale) := by
    have hhalf := hnear.high
    have hmid := Nat.mul_le_mul_right (den * 2 ^ x.scale) (show x.mantissa ≤ 0x1fffffffffffff by omega)
    have hstep : 0 < den * 2 ^ x.scale := Nat.mul_pos hden (Nat.pow_pos (by decide))
    rw [Nat.div_lt_iff_lt_mul hden, Nat.pow_add, Nat.mul_assoc, Nat.mul_comm (2 ^ x.scale)]
    omega
  by_cases hlow : x.scale ≠ 0 → 2 ^ (52 + x.scale) ≤ num / den
  · exact nearest_of_scale hden hnear (log2_sub_of_bounds hlow hhigh) negative
  · -- the quotient is in the binade below the one of the double, which must be the least of its own
    obtain ⟨hs, hbelow⟩ := Classical.not_imp.1 hlow
    have hnum : num < 2 ^ 52 * (den * 2 ^ x.scale) := by
      rwa [Nat.not_le, Nat.div_lt_iff_lt_mul hden, Nat.pow_add, Nat.mul_assoc, Nat.mul_comm (2 ^ x.scale)] at hbelow
    have hpower : x.mantissa = 0x10000000000000 := by
      have hnormal := x.normal hs
      have hhalf := hnear.low
      by_contra hne
      have hmid := Nat.mul_le_mul_right (den * 2 ^ x.scale) (show 0x10000000000001 ≤ x.mantissa by omega)
      omega
    obtain ⟨scale, hscale⟩ := Nat.exists_eq_succ_of_ne_zero hs
    refine nearest_of_carry hden hpower hscale hnear ?_ negative
    rw [hscale, Nat.pow_succ 2 scale, ← Nat.mul_assoc den] at hnum
    omega

/-! ## Rounding within the range of doubles -/

theorem le_nearestQuotient {num den m : Nat} (hden : 0 < den) (h : m * den ≤ num) : m ≤ nearestQuotient num den := by
  have hm : m ≤ num / den := (Nat.le_div_iff_mul_le hden).2 h
  simp only [nearestQuotient]
  split
  · exact hm
  · split <;> omega

theorem nearestQuotient_le {num den m : Nat} (hden : 0 < den) (h : num ≤ m * den) : nearestQuotient num den ≤ m := by
  have hsplit : num / den * den + num % den = num := by rw [Nat.mul_comm, Nat.div_add_mod]
  simp only [nearestQuotient]
  generalize num / den = q at *
  generalize num % den = r at *
  obtain hlt | hge := Nat.lt_or_ge q m
  · split
    · omega
    · split <;> omega
  · -- nothing remains
    have hmul := Nat.mul_le_mul_right den hge
    have hq : q ≤ m := Nat.le_of_mul_le_mul_right (show q * den ≤ m * den by omega) hden
    rw [if_pos (by omega)]
    exact hq

/-- Leading digits fill the mantissa, but for the least scale. -/
theorem leading_bounds {num den scale : Nat} (hden : 0 < den) (hle : den ≤ num)
    (hscale : (num / den).log2 - 52 = scale) :
    (scale ≠ 0 → 0x10000000000000 * (den * 2 ^ scale) ≤ num) ∧ num ≤ 0x20000000000000 * (den * 2 ^ scale) := by
  have hne : num / den ≠ 0 := (Nat.div_pos hle hden).ne'
  have hsplit (k : Nat) : 2 ^ (k + scale) * den = 2 ^ k * (den * 2 ^ scale) := by ring
  constructor
  · intro hscale
    have hself := (Nat.le_div_iff_mul_le hden).1 (Nat.log2_self_le hne)
    rwa [show (num / den).log2 = 52 + scale by omega, hsplit] at hself
  · have hself := (Nat.div_lt_iff_lt_mul hden).1 (Nat.lt_log2_self (n := num / den))
    have hpow : 2 ^ ((num / den).log2 + 1) ≤ 2 ^ (53 + scale) := Nat.pow_le_pow_right (by decide) (by omega)
    have hmul := Nat.mul_le_mul_right den hpow
    rw [hsplit] at hmul
    exact hself.le.trans hmul

theorem exists_ofParts? (negative : Bool) {mantissa scale : Nat} (hpos : 0 < mantissa)
    (hlt : mantissa < 0x20000000000000) (hnormal : scale ≠ 0 → 0x10000000000000 ≤ mantissa) (hscale : scale ≤ 2045) :
    ∃ x, ofParts? negative mantissa scale = some x ∧ x.negative = negative ∧ 0 < x.units :=
  ⟨⟨negative, mantissa, scale, hlt, hnormal, hscale⟩, dif_pos ⟨hlt, hnormal, hscale⟩, rfl,
    Nat.mul_pos hpos (Nat.pow_pos (by decide))⟩

/-- A quotient from one unit up to the largest double rounds to a double. -/
theorem exists_nearest (negative : Bool) {num den top : Nat} (hden : 0 < den) (hle : den ≤ num) (htop : top ≤ 2045)
    (h : num ≤ 0x1fffffffffffff * (den * 2 ^ top)) :
    ∃ x, nearest negative num den = some x ∧ x.negative = negative ∧ 0 < x.units := by
  simp only [nearest, Nat.pow_eq]
  generalize hscale : (num / den).log2 - 52 = scale
  obtain ⟨hlow, hhigh⟩ := leading_bounds hden hle hscale
  have hstep : 0 < den * 2 ^ scale := Nat.mul_pos hden (Nat.pow_pos (by decide))
  have hnormal (hne : scale ≠ 0) := le_nearestQuotient hstep (hlow hne)
  have hpos : 0 < nearestQuotient num (den * 2 ^ scale) := by
    by_cases hzero : scale = 0
    · exact le_nearestQuotient hstep (by simpa [hzero] using hle)
    · exact Nat.lt_of_lt_of_le (by decide) (hnormal hzero)
  have hrange : scale ≤ top := by
    by_contra hlt
    have hpow : 2 ^ (top + 1) ≤ 2 ^ scale := Nat.pow_le_pow_right (by decide) (by omega)
    have hmul := Nat.mul_le_mul_left den hpow
    have hlarge := hlow (by omega)
    have htopStep : 0 < den * 2 ^ top := Nat.mul_pos hden (Nat.pow_pos (by decide))
    rw [Nat.pow_succ, ← Nat.mul_assoc] at hmul
    omega
  split
  · rename_i hcarry
    have hbelow : scale ≠ top := by
      rintro rfl
      have hmantissa := nearestQuotient_le hstep h
      omega
    exact exists_ofParts? negative (by decide) (by decide) (fun _ => Nat.le_refl _) (by omega)
  · have hmantissa := nearestQuotient_le hstep hhigh
    exact exists_ofParts? negative hpos (by omega) hnormal (by omega)

end ServiceSchema.Double
