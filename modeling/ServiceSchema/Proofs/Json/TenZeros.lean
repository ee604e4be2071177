import ServiceSchema.Proofs.Json.Integral
import ServiceSchema.Proofs.Json.Token

/-! # Ten zeros behind a large odd number
With ten zeros behind it, an odd number from 922337204 on lies half-way between two doubles, so that the significand is
off by half a step. Division by the power of ten makes up for this only if the doubles next to the number are far
apart: from `2 ^ 30` on. -/
namespace ServiceSchema

namespace Double

/-! ## Rounding to a given double -/

/-- Half a step of the double away, or less; just half a step only if the mantissa is even. -/
theorem contains_of_close {x : Double} (hpower : x.mantissa ≠ 0x10000000000000) {factor n : Nat}
    (hlow : 4 * x.units * factor ≤ n + 2 * (2 ^ x.scale * factor))
    (hhigh : n ≤ 4 * x.units * factor + 2 * (2 ^ x.scale * factor))
    (htie : x.mantissa % 2 = 0 ∨
      4 * x.units * factor < n + 2 * (2 ^ x.scale * factor) ∧ n < 4 * x.units * factor + 2 * (2 ^ x.scale * factor)) :
    x.interval.contains factor n := by
  have hnot : ¬ (x.mantissa = 0x10000000000000 ∧ x.scale ≠ 0) := fun h => hpower h.1
  simp only [Interval.contains, interval, if_neg hnot, Nat.pow_eq, Nat.sub_mul, Nat.add_mul, Nat.mul_assoc 2]
  split
  · simp only [Bool.and_eq_true, decide_eq_true_eq]
    omega
  · rename_i hodd
    obtain heven | ⟨hlow, hhigh⟩ := htie
    · exact absurd (beq_iff_eq.2 heven) hodd
    · have hpos : 0 < x.mantissa := Nat.pos_of_ne_zero fun hzero => hodd (by rw [hzero]; rfl)
      have hunits : 2 ^ x.scale * factor ≤ x.units * factor :=
        Nat.mul_le_mul_right _ (Nat.le_mul_of_pos_left _ hpos)
      simp only [Bool.and_eq_true, decide_eq_true_eq]
      rw [Nat.mul_assoc 4] at *
      omega

/-- A natural number no further than half a step from an even double. -/
theorem ofNat?_of_close {x : Double} {s k : Nat} (hpower : x.mantissa ≠ 0x10000000000000)
    (hstep : 2 ^ x.scale = 2 ^ k * one) (heven : x.mantissa % 2 = 0)
    (hlow : 2 * (x.mantissa * 2 ^ k) ≤ 2 * s + 2 ^ k) (hhigh : 2 * s ≤ 2 * (x.mantissa * 2 ^ k) + 2 ^ k) :
    ofNat? s = some { x with negative := false } := by
  have hunits : x.units = x.mantissa * 2 ^ k * one := by rw [units, Nat.pow_eq, hstep, Nat.mul_assoc]
  refine nearest_of_contains Nat.one_pos (contains_of_close hpower ?_ ?_ (.inl heven)) false
  · have hmul := Nat.mul_le_mul_right (2 * one) hlow
    rw [hunits, hstep]
    linarith
  · have hmul := Nat.mul_le_mul_right (2 * one) hhigh
    rw [hunits, hstep]
    linarith

/-- A quotient less than half a step from a double below one. -/
theorem div?_of_close {x y z : Double} {s d b : Nat} (hx : x.units = s * one) (hy : y.units = d * one)
    (hxn : x.negative = false) (hyn : y.negative = false) (hpower : z.mantissa ≠ 0x10000000000000)
    (hstep : one = 2 ^ b * 2 ^ z.scale) (hd : 0 < d) (hlow : 2 * (z.mantissa * d) < 2 * (s * 2 ^ b) + d)
    (hhigh : 2 * (s * 2 ^ b) < 2 * (z.mantissa * d) + d) : x.div? y = some { z with negative := false } := by
  have hpos : 0 < 2 * (2 ^ z.scale * one) := Nat.mul_pos (by decide) (Nat.mul_pos (Nat.pow_pos (by decide)) one_pos)
  have hnum : 4 * (s * one * one) = 2 * (s * 2 ^ b) * (2 * (2 ^ z.scale * one)) := by
    calc 4 * (s * one * one) = 4 * (s * (2 ^ b * 2 ^ z.scale) * one) := by rw [← hstep]
      _ = 2 * (s * 2 ^ b) * (2 * (2 ^ z.scale * one)) := by ring
  have hmid : 4 * z.units * (d * one) = 2 * (z.mantissa * d) * (2 * (2 ^ z.scale * one)) := by
    rw [units, Nat.pow_eq]
    ring
  have hhalf : 2 * (2 ^ z.scale * (d * one)) = d * (2 * (2 ^ z.scale * one)) := by ring
  have hlow := Nat.mul_lt_mul_of_pos_right hlow hpos
  have hhigh := Nat.mul_lt_mul_of_pos_right hhigh hpos
  rw [Nat.add_mul, ← hnum, ← hmid, ← hhalf] at hlow hhigh
  rw [div?, hx, hy, hxn, hyn]
  exact nearest_of_contains (Nat.mul_pos hd one_pos)
    (contains_of_close hpower hlow.le hhigh.le (.inr ⟨hlow, hhigh⟩)) false

theorem exists_scale {m scale : Nat} (hlow : 0x10000000000000 ≤ m) (hhigh : m < 0x20000000000000)
    (hscale : scale ≤ 2045) : ∃ x : Double, x.negative = false ∧ x.mantissa = m ∧ x.scale = scale :=
  ⟨⟨false, m, scale, hhigh, fun _ => hlow, hscale⟩, rfl, rfl, rfl⟩

theorem one_eq_pow : one = 2 ^ 1074 := by decide +kernel

end Double

namespace Json.Numeral

theorem exists_even_half {n : Nat} (h : n % 2 = 1) : ∃ m, m % 2 = 0 ∧ (2 * m = n + 1 ∨ 2 * m + 1 = n) :=
  ⟨(n + 1) / 4 * 2, by omega, by omega⟩

/-- Of the two doubles next to a number half-way between them, the even one is taken. -/
theorem ofNat?_ten_zeros {n : Nat} (hodd : n % 2 = 1) (hlow : 922337204 ≤ n) (hhigh : n ≤ 1844674407) :
    ∃ x m, Double.ofNat? (n * 10 ^ 10) = some x ∧ x.negative = false ∧ x.units = m * 2 ^ 11 * Double.one ∧
      (2 * m = n * 5 ^ 10 + 1 ∨ 2 * m + 1 = n * 5 ^ 10) := by
  obtain ⟨m, heven, hm⟩ := exists_even_half (show n * 5 ^ 10 % 2 = 1 by omega)
  have hbounds : 0x10000000000000 < m ∧ m < 0x20000000000000 := by
    obtain hm | hm := hm <;> constructor <;> linarith
  obtain ⟨x, -, hmantissa, hscale⟩ :=
    Double.exists_scale hbounds.1.le hbounds.2 (show 1085 ≤ 2045 by decide)
  have hstep : 2 ^ x.scale = 2 ^ 11 * Double.one := by rw [hscale, Double.one_eq_pow, ← Nat.pow_add]
  have hpower : x.mantissa ≠ 0x10000000000000 := hmantissa ▸ hbounds.1.ne'
  have hround : Double.ofNat? (n * 10 ^ 10) = some { x with negative := false } := by
    apply Double.ofNat?_of_close hpower hstep (hmantissa ▸ heven)
    all_goals
      rw [hmantissa]
      obtain hm | hm := hm <;> linarith
  refine ⟨_, m, hround, rfl, ?_, hm⟩
  change x.units = _
  rw [Double.units, Nat.pow_eq, hstep, hmantissa, Nat.mul_assoc]

theorem next_bounds {n q : Nat} (hlow : 922337204 ≤ n) (hhigh : n < 0x40000000)
    (h : q = n * 2 ^ 23 + 1 ∨ q + 1 = n * 2 ^ 23) :
    0x10000000000000 < q ∧ q < 0x20000000000000 ∧ q % 2 ^ 23 ≠ 0 := by
  omega

section Quotients

variable {n m : Nat} {x p : Double}

/-- From `2 ^ 30` on the quotient is the number again. -/
theorem div?_ten_zeros_large (hx : x.units = m * 2 ^ 11 * Double.one) (hp : p.units = 10 ^ 10 * Double.one)
    (hxn : x.negative = false) (hpn : p.negative = false) (hm : 2 * m = n * 5 ^ 10 + 1 ∨ 2 * m + 1 = n * 5 ^ 10)
    (hlow : 0x40000000 < n) (hhigh : n ≤ 1844674407) :
    ∃ y, x.div? p = some y ∧ y.negative = false ∧ y.units = n * Double.one := by
  have hbounds : 0x10000000000000 < n * 2 ^ 22 ∧ n * 2 ^ 22 < 0x20000000000000 := by constructor <;> linarith
  obtain ⟨y, -, hmantissa, hscale⟩ := Double.exists_scale hbounds.1.le hbounds.2 (show 1052 ≤ 2045 by decide)
  have hone : Double.one = 2 ^ 22 * 2 ^ y.scale := by rw [hscale, ← Nat.pow_add, Double.one_eq_pow]
  have hpower : y.mantissa ≠ 0x10000000000000 := hmantissa ▸ hbounds.1.ne'
  refine ⟨_, Double.div?_of_close hx hp hxn hpn hpower hone (by decide) ?_ ?_, rfl, ?_⟩
  · rw [hmantissa]
    obtain hm | hm := hm <;> linarith
  · rw [hmantissa]
    obtain hm | hm := hm <;> linarith
  · change y.units = _
    rw [Double.units, Nat.pow_eq, hone, hmantissa, Nat.mul_assoc]

/-- Below `2 ^ 30` the quotient is the next double, which is no integer. -/
theorem div?_ten_zeros_small (hx : x.units = m * 2 ^ 11 * Double.one) (hp : p.units = 10 ^ 10 * Double.one)
    (hxn : x.negative = false) (hpn : p.negative = false) (hm : 2 * m = n * 5 ^ 10 + 1 ∨ 2 * m + 1 = n * 5 ^ 10)
    (hlow : 922337204 ≤ n) (hhigh : n < 0x40000000) :
    ∃ y, x.div? p = some y ∧ y.negative = false ∧ y.isIntegral = false := by
  have hpos : 1 ≤ n * 2 ^ 23 := Nat.mul_pos (Nat.lt_of_lt_of_le (by decide) hlow) (by decide)
  -- the quotient is off to the same side as the significand
  obtain ⟨q, hq⟩ : ∃ q, 2 * m = n * 5 ^ 10 + 1 ∧ q = n * 2 ^ 23 + 1 ∨
      2 * m + 1 = n * 5 ^ 10 ∧ q + 1 = n * 2 ^ 23 := by
    obtain hm | hm := hm
    · exact ⟨n * 2 ^ 23 + 1, .inl ⟨hm, rfl⟩⟩
    · exact ⟨n * 2 ^ 23 - 1, .inr ⟨hm, Nat.sub_add_cancel hpos⟩⟩
  obtain ⟨hleast, hmost, hmod⟩ := next_bounds hlow hhigh (hq.imp And.right And.right)
  obtain ⟨y, -, hmantissa, hscale⟩ := Double.exists_scale hleast.le hmost (show 1051 ≤ 2045 by decide)
  have hone : Double.one = 2 ^ 23 * 2 ^ y.scale := by rw [hscale, ← Nat.pow_add, Double.one_eq_pow]
  have hpower : y.mantissa ≠ 0x10000000000000 := hmantissa ▸ hleast.ne'
  refine ⟨_, Double.div?_of_close hx hp hxn hpn hpower hone (by decide) ?_ ?_, rfl, ?_⟩
  · rw [hmantissa]
    obtain ⟨hm, hq⟩ | ⟨hm, hq⟩ := hq <;> linarith
  · rw [hmantissa]
    obtain ⟨hm, hq⟩ | ⟨hm, hq⟩ := hq <;> linarith
  · change (y.units % Double.one == 0) = false
    rw [Double.units, Nat.pow_eq, hone, hmantissa, Nat.mul_mod_mul_right, beq_eq_false_iff_ne]
    exact Nat.mul_ne_zero hmod (Nat.pow_pos (by decide)).ne'

end Quotients

theorem scaled?_ten_zeros {n : Nat} (hodd : n % 2 = 1) (hlow : 922337204 ≤ n) (hhigh : n ≤ 1844674407) :
    ∃ y, scaled? (n * 10 ^ 10) (-10) = some y ∧ y.negative = false ∧
      (0x40000000 ≤ n → y.units = n * Double.one) ∧ (n < 0x40000000 → y.isIntegral = false) := by
  obtain ⟨x, m, hx, hxn, hxunits, hm⟩ := ofNat?_ten_zeros hodd hlow hhigh
  obtain ⟨p, hp, hpn, hpunits⟩ := Double.pow10?_exact (show 10 ≤ 22 by decide)
  have hscaled : scaled? (n * 10 ^ 10) (-10) = x.div? p := by
    rw [scaled?, hx, Option.bind_some, if_neg (by decide)]
    change divideDown 0 x 10 = _
    rw [divideDown, hp, Option.bind_some]
  rw [hscaled]
  obtain hn | hn := Nat.lt_or_ge n 0x40000000
  · obtain ⟨y, hy, hnegative, hintegral⟩ := div?_ten_zeros_small hxunits hpunits hxn hpn hm hlow hn
    exact ⟨y, hy, hnegative, fun hle => absurd hn (Nat.not_lt.2 hle), fun _ => hintegral⟩
  · obtain ⟨y, hy, hnegative, hunits⟩ := div?_ten_zeros_large hxunits hpunits hxn hpn hm (by omega) hhigh
    exact ⟨y, hy, hnegative, fun _ => hunits, fun hlt => absurd hlt (Nat.not_lt.2 hn)⟩

/-! ## Integers with zeros behind the point -/

/-- With ten zeros or more behind its point, the number is read as a double next to it. -/
def Misread (n k : Nat) : Prop := 10 ≤ k ∧ n % 2 = 1 ∧ 922337204 ≤ n ∧ n < 0x40000000

/-- The significand of such a numeral takes just ten of the zeros. -/
theorem eq_ten_of_misread {n k j : Nat} (h : Misread n k) (hle : n * 10 ^ j ≤ significandBound)
    (hfull : j < k → significandBound < n * 10 ^ (j + 1)) : j = 10 := by
  obtain ⟨hk, -, hlow, hhigh⟩ := h
  rw [significandBound] at hle hfull
  have hpow {a b : Nat} (hab : a ≤ b) : n * 10 ^ a ≤ n * 10 ^ b :=
    Nat.mul_le_mul_left n (Nat.pow_le_pow_right (by decide) hab)
  obtain hless | rfl | hmore := Nat.lt_trichotomy j 10
  · have hroom := hfull (by omega)
    have hmost := hpow (show j + 1 ≤ 10 by omega)
    omega
  · rfl
  · have hleast := hpow (show 11 ≤ j by omega)
    omega

theorem toDouble_of_zeros {x : Numeral} (hx : x.WellFormed) {n k : Nat} (hn : n < 0x100000000)
    (hdigits : x.allDigits = n * 10 ^ k) (hpower : x.power = -(k : Int)) (hexponent : x.exponent = none) :
    ∃ y, x.toDouble = .ok (withSign x.negative y) ∧ y.negative = false ∧ (¬ Misread n k → y.units = n * Double.one) ∧
      (Misread n k → y.isIntegral = false) := by
  have hnone : ∀ e, x.exponent = some e → digitsValue 0 e.digits ≤ exponentBound := by simp [hexponent]
  obtain rfl | hpos := Nat.eq_zero_or_pos n
  · obtain ⟨y, hy, hnegative, hunits⟩ := scaled?_zero x.power
    have hzero : x.allDigits = 0 := by rw [hdigits, Nat.zero_mul]
    refine ⟨y, toDouble_of_fits (hzero ▸ Nat.zero_le _) hnone (hzero ▸ hy), hnegative, fun _ => ?_, ?_⟩
    · rw [hunits, Nat.zero_mul]
    · rintro ⟨-, -, hlow, -⟩
      omega
  obtain ⟨j, hj, hle, hfull, htoDouble⟩ := toDouble_of_multiple hx hpos hn hdigits hpower hnone
  by_cases hten : j = 10 → n * 5 ^ 10 < 0x20000000000000 ∨ n % 2 = 0
  · have hplaces := zeros_le hpos hle
    obtain ⟨y, hy, hnegative, hunits⟩ := scaled?_of_exact (exact_mul_pow hn hle hten)
      (show (-(j : Int)).natAbs ≤ 22 by omega) (show n < 0x20000000000000 by omega) (by simp)
    refine ⟨y, htoDouble y hy, hnegative, fun _ => hunits, fun hmisread => ?_⟩
    have hexact := hten (eq_ten_of_misread hmisread hle hfull)
    obtain ⟨-, hodd, hlow, -⟩ := hmisread
    omega
  · obtain ⟨rfl, hinexact⟩ := Classical.not_imp.1 hten
    rw [significandBound] at hle
    obtain ⟨y, hy, hnegative, hlarge, hsmall⟩ := scaled?_ten_zeros (n := n) (by omega) (by omega) (by omega)
    refine ⟨y, htoDouble y hy, hnegative, fun hread => hlarge ?_, fun hmisread => hsmall hmisread.2.2.2⟩
    by_contra hlt
    exact hread ⟨hj, by omega, by omega, by omega⟩

theorem value_of_zeros {x : Numeral} (hx : x.WellFormed) {n k : Nat} (hn : n < 0x100000000)
    (hnegative : x.negative = false) (hdigits : x.allDigits = n * 10 ^ k) (hpower : x.power = -(k : Int))
    (hfraction : x.fraction.isSome) (hexponent : x.exponent = none) :
    ∃ m, x.value = .ok m ∧ (¬ Misread n k → m.Denotes n) ∧ (Misread n k → m.isIntegral = false) := by
  obtain ⟨y, hy, hyn, hread, hmisread⟩ := toDouble_of_zeros hx hn hdigits hpower hexponent
  rw [hnegative] at hy
  refine ⟨.double y, ?_, fun h => ?_, hmisread⟩
  · rw [value, toInteger?_of_kind (.inl hfraction), hy]
    rfl
  · exact denotes_withSign hyn (hread h) (fun hsign : false = true => absurd hsign Bool.false_ne_true)

def zerosChars (n k : Nat) : List Char := Nat.toDigits 10 n ++ '.' :: List.replicate k '0'

theorem exists_zerosToken (n : Nat) {k : Nat} (hk : 1 ≤ k) : ∃ t : NumberToken, t.chars = zerosChars n k ∧
    t.numeral.negative = false ∧ t.numeral.allDigits = n * 10 ^ k ∧ t.numeral.power = -(k : Int) ∧
    t.numeral.fraction.isSome ∧ t.numeral.exponent = none := by
  obtain ⟨d, ds, hdigits, hlt, hvalue, hlead⟩ := toDigits_spec n
  have hfraction : ∀ es, some (List.replicate k 0) = some es → es ≠ [] ∧ ∀ e ∈ es, e < 10 := by
    rintro _ ⟨⟩
    exact ⟨by simp; omega, fun e => Decimal.lt_of_mem_zeros⟩
  refine ⟨⟨⟨false, d :: ds, some (List.replicate k 0), none⟩, ⟨⟨d, ds, rfl, hlead, hlt⟩, hfraction, nofun⟩, false,
    false⟩, ?_, rfl, ?_, ?_, rfl, rfl⟩
  · have hzero : Nat.digitChar 0 = '0' := rfl
    simp [NumberToken.chars, NumberToken.exponentChars, minus, fractionChars, zerosChars, hdigits, hzero]
  · rw [allDigits, Option.getD_some, digitsValue_append, hvalue, Decimal.digitsValue_zeros]
  · simp [power]

end Json.Numeral
end ServiceSchema
