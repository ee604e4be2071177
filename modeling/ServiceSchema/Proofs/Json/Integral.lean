import Mathlib.Data.Rat.Cast.Order
import ServiceSchema.Proofs.Json.Number
import ServiceSchema.Proofs.Json.Significand

/-! # Numerals of natural numbers
A small natural number is read as itself in all of its spellings, since no step of the computation rounds: of its
digits, the ones that fit the significand make a double, and the power of ten that is left is one, too. -/
namespace ServiceSchema
open ServiceSchema.Json

namespace Double

/-! ## Steps that do not round -/

theorem isZero_of_units {x : Double} (h : x.units = 0) : x.isZero := by
  have hpos : 0 < Nat.pow 2 x.scale := Nat.pow_pos (by decide)
  obtain hm | hm := Nat.mul_eq_zero.1 h
  · exact beq_iff_eq.2 hm
  · omega

theorem nearest_zero (negative : Bool) {den : Nat} (hden : 0 < den) :
    ∃ x, nearest negative 0 den = some x ∧ x.negative = negative ∧ x.units = 0 := by
  refine ⟨{ zero negative with negative }, ?_, rfl, Nat.zero_mul _⟩
  have hzero : (zero negative).units = 0 := Nat.zero_mul _
  have hnearest := nearest_units (zero negative) hden negative
  rwa [hzero, Nat.zero_mul] at hnearest

/-- All powers of ten that a double is multiplied or divided by are there. -/
theorem exists_pow10? {e : Nat} (h : e ≤ 308) : ∃ x, pow10? e = some x ∧ x.negative = false ∧ 0 < x.units := by
  -- the exponents are kept as variables, or the powers would be computed
  obtain ⟨most, hmost⟩ : ∃ most, most = 308 := ⟨_, rfl⟩
  obtain ⟨top, htop⟩ : ∃ top, top = 2045 := ⟨_, rfl⟩
  have hlargest : 10 ^ most * one ≤ 0x1fffffffffffff * (1 * 2 ^ top) := by
    rw [hmost, htop]
    decide +kernel
  have hpow : 10 ^ e ≤ 10 ^ most := Nat.pow_le_pow_right (by decide) (hmost ▸ h)
  have hone : 1 ≤ 10 ^ e * one := Nat.mul_pos (Nat.pow_pos (by decide)) one_pos
  exact exists_nearest false Nat.one_pos hone htop.le ((Nat.mul_le_mul_right one hpow).trans hlargest)

theorem mul?_zero {x y : Double} (hx : x.units = 0) (hxn : x.negative = false) (hyn : y.negative = false) :
    ∃ z, x.mul? y = some z ∧ z.negative = false ∧ z.units = 0 := by
  rw [mul?, hx, hxn, hyn, Nat.zero_mul]
  exact nearest_zero false one_pos

theorem div?_zero {x y : Double} (hx : x.units = 0) (hxn : x.negative = false) (hyn : y.negative = false)
    (hy : 0 < y.units) : ∃ z, x.div? y = some z ∧ z.negative = false ∧ z.units = 0 := by
  rw [div?, hx, hxn, hyn, Nat.zero_mul]
  exact nearest_zero false hy

end Double

namespace Json.Numeral

/-- Zero stays zero, whatever it is multiplied or divided by. -/
theorem scaled?_zero (e : Int) : ∃ x, scaled? 0 e = some x ∧ x.negative = false ∧ x.units = 0 := by
  obtain ⟨x, hx, hnegative, hunits⟩ := Double.nearest_zero false Nat.one_pos
  have hstart : Double.ofNat? 0 = some x := by rwa [Double.ofNat?, Nat.zero_mul]
  have hzero := Double.isZero_of_units hunits
  rw [scaled?, hstart, Option.bind_some]
  split
  · split
    · obtain ⟨y, hy, hyn, -⟩ := Double.exists_pow10? (show e.toNat ≤ 308 by omega)
      rw [hy, Option.bind_some]
      exact Double.mul?_zero hunits hnegative hyn
    · exact ⟨x, rfl, hnegative, hunits⟩
  · cases hfuel : e.natAbs / 308 with
    | zero =>
      obtain ⟨y, hy, hyn, hpos⟩ := Double.exists_pow10? (show e.natAbs ≤ 308 by omega)
      rw [divideDown, hy, Option.bind_some]
      exact Double.div?_zero hunits hnegative hyn hpos
    | succ fuel =>
      rw [divideDown]
      split
      · obtain ⟨y, hy, hyn, hpos⟩ := Double.exists_pow10? ‹_›
        rw [hy, Option.bind_some]
        exact Double.div?_zero hunits hnegative hyn hpos
      · exact ⟨x, rfl, hnegative, hunits⟩

/-- A product or a quotient that is a natural number is this number, if both factors are exact. -/
theorem scaled?_of_exact {s n : Nat} {e : Int} (hs : Double.Exact s) (he : e.natAbs ≤ 22) (hn : n < 0x20000000000000)
    (h : s * 10 ^ e.toNat = n * 10 ^ (-e).toNat) :
    ∃ x, scaled? s e = some x ∧ x.negative = false ∧ x.units = n * Double.one := by
  obtain ⟨x, -, hunits⟩ := Double.exists_units hn (Nat.zero_le 971)
  rw [Nat.pow_zero, Nat.mul_one] at hunits
  refine ⟨{ x with negative := false }, scaled?_of_holds hs he ?_, rfl, hunits⟩
  have hmid : 4 * (s * 10 ^ e.toNat * Double.one) = x.interval.mid * 10 ^ (-e).toNat := by
    rw [h, Double.interval, hunits]
    ring
  rw [Double.Interval.Holds, hmid]
  exact x.contains_mid (Nat.pow_pos (by decide))

theorem exact_of_dvd {s : Nat} (h : 2 ^ 11 ∣ s) (hle : s ≤ significandBound) : Double.Exact s := by
  obtain ⟨m, rfl⟩ := h
  rw [significandBound] at hle
  exact ⟨m, 11, by omega, Nat.le_refl 11, Nat.mul_comm _ _⟩

/-- A number of 32 bits is exact with any zeros that fit, but for ten of them behind a large odd number. -/
theorem exact_mul_pow {n j : Nat} (hn : n < 0x100000000) (hle : n * 10 ^ j ≤ significandBound)
    (hten : j = 10 → n * 5 ^ 10 < 0x20000000000000 ∨ n % 2 = 0) : Double.Exact (n * 10 ^ j) := by
  have hsplit (k : Nat) : n * 10 ^ k = n * 5 ^ k * 2 ^ k := by rw [Nat.mul_assoc, ← Nat.mul_pow]
  obtain hj | rfl | hj := Nat.lt_trichotomy j 10
  · have hfive : n * 5 ^ j ≤ n * 5 ^ 9 := Nat.mul_le_mul_left n (Nat.pow_le_pow_right (by decide) (by omega))
    exact ⟨n * 5 ^ j, j, by omega, by omega, hsplit j⟩
  · obtain hlt | heven := hten rfl
    · exact ⟨n * 5 ^ 10, 10, hlt, by decide, hsplit 10⟩
    · exact exact_of_dvd (by omega) hle
  · have hdvd : 2 ^ 11 ∣ 2 ^ j := Nat.pow_dvd_pow 2 hj
    exact exact_of_dvd (hsplit j ▸ Nat.dvd_mul_left_of_dvd hdvd _) hle

/-! ## Values of numerals -/

def exact (x : Numeral) : ℚ := (if x.negative then -1 else 1) * (x.allDigits * 10 ^ x.power)

theorem allDigits_of_exact {x : Numeral} {n : Nat} (h : x.exact = n) :
    x.allDigits * 10 ^ x.power.toNat = n * 10 ^ (-x.power).toNat ∧ (x.negative → n = 0) := by
  have hpow : (10 : ℚ) ^ x.power * 10 ^ (-x.power).toNat = 10 ^ x.power.toNat := by
    rw [← zpow_natCast, ← zpow_natCast, ← zpow_add₀ (by norm_num)]
    congr 1
    omega
  have hpos : (0 : ℚ) < 10 ^ x.power := zpow_pos (by norm_num) _
  cases hsign : x.negative with
  | true =>
    rw [exact, hsign, if_pos rfl] at h
    have hle : (0 : ℚ) ≤ x.allDigits * 10 ^ x.power := mul_nonneg x.allDigits.cast_nonneg hpos.le
    have hn : (0 : ℚ) ≤ n := n.cast_nonneg
    have hzero : (n : ℚ) = 0 := by linarith
    have hdigits : (x.allDigits : ℚ) * 10 ^ x.power = 0 := by linarith
    obtain hdigits | hten := mul_eq_zero.1 hdigits
    · rw [Nat.cast_eq_zero] at hzero hdigits
      simp [hzero, hdigits]
    · exact absurd hten hpos.ne'
  | false =>
    rw [exact, hsign, if_neg Bool.false_ne_true, one_mul] at h
    refine ⟨?_, nofun⟩
    have hcast : (x.allDigits : ℚ) * 10 ^ x.power.toNat = n * 10 ^ (-x.power).toNat := by
      rw [← h, ← hpow, mul_assoc]
    exact_mod_cast hcast

theorem WellFormed.digit_lt {x : Numeral} (h : x.WellFormed) : ∀ d ∈ x.whole ++ x.fraction.getD [], d < 10 := by
  obtain ⟨⟨d, ds, hwhole, -, hlt⟩, hfraction, -⟩ := h
  rw [List.forall_mem_append, hwhole]
  refine ⟨hlt, ?_⟩
  cases hf : x.fraction with
  | none => exact fun d hd => absurd hd List.not_mem_nil
  | some es => exact (hfraction es hf).2

/-- What fits a significand has fewer than twenty zeros. -/
theorem zeros_le {n j : Nat} (hn : 0 < n) (h : n * 10 ^ j ≤ significandBound) : j ≤ 19 := by
  have hpow : 10 ^ j < 10 ^ 20 :=
    Nat.lt_of_le_of_lt (Nat.le_trans (Nat.le_mul_of_pos_left _ hn) h) (by decide)
  exact Nat.le_of_lt_succ ((Nat.pow_lt_pow_iff_right (by decide)).1 hpow)

/-- A numeral whose digits are those of a number of 32 bits and of zeros, all of them behind the point. -/
theorem toDouble_of_multiple {x : Numeral} (hx : x.WellFormed) {n z : Nat} (hn : 0 < n) (hbound : n < 0x100000000)
    (hdigits : x.allDigits = n * 10 ^ z) (hpower : x.power = -(z : Int))
    (hexponent : ∀ e, x.exponent = some e → digitsValue 0 e.digits ≤ exponentBound) :
    ∃ j ≤ z, n * 10 ^ j ≤ significandBound ∧ (j < z → significandBound < n * 10 ^ (j + 1)) ∧
      ∀ y, scaled? (n * 10 ^ j) (-(j : Int)) = some y → x.toDouble = .ok (withSign x.negative y) := by
  have hsmall : n * 10 ≤ significandBound := by
    rw [significandBound]
    omega
  obtain ⟨j, hj, hparts, hle, hfull⟩ := parts_of_multiple hx.digit_lt hn hsmall hdigits
  refine ⟨j, hj, hle, hfull, fun y hy => toDouble_of_parts hparts hexponent ?_⟩
  have hrest : (z : Int) - j - (x.fraction.getD []).length + x.exponent.elim 0 Exponent.value = -(j : Int) := by
    rw [power] at hpower
    omega
  rwa [hrest]

/-- A numeral whose digits are a small number without its last zeros, which the exponent supplies. -/
theorem toDouble_of_divisor {x : Numeral} {n z : Nat} (hn : 0 < n) (hbound : n ≤ 65535)
    (hdigits : x.allDigits * 10 ^ z = n) (hpower : x.power = z)
    (hexponent : ∀ e, x.exponent = some e → digitsValue 0 e.digits ≤ exponentBound) :
    ∃ y, x.toDouble = .ok (withSign x.negative y) ∧ y.negative = false ∧ y.units = n * Double.one := by
  have hpos : 0 < x.allDigits := by
    rw [Nat.pos_iff_ne_zero]
    intro hzero
    rw [hzero, Nat.zero_mul] at hdigits
    exact hn.ne hdigits
  have hle : x.allDigits ≤ n := hdigits ▸ Nat.le_mul_of_pos_right _ (Nat.pow_pos (by decide))
  have hplaces : z ≤ 19 := by
    apply zeros_le hpos
    rw [hdigits, significandBound]
    omega
  have hdouble : Double.Exact x.allDigits :=
    ⟨x.allDigits, 0, by omega, by decide, by rw [Nat.pow_zero, Nat.mul_one]⟩
  obtain ⟨y, hy, hnegative, hunits⟩ := scaled?_of_exact hdouble (show x.power.natAbs ≤ 22 by omega)
    (show n < 0x20000000000000 by omega) (by simp [hpower, hdigits])
  exact ⟨y, toDouble_of_fits hdouble.le hexponent hy, hnegative, hunits⟩

/-- The double of a numeral for a small natural number is this number. -/
theorem toDouble_of_exact {x : Numeral} (hx : x.WellFormed) {n : Nat} (hn : n ≤ 65535) (hexact : x.exact = n)
    (hexponent : ∀ e, x.exponent = some e → digitsValue 0 e.digits ≤ exponentBound) :
    ∃ y, x.toDouble = .ok (withSign x.negative y) ∧ y.negative = false ∧ y.units = n * Double.one := by
  have hvalue := (allDigits_of_exact hexact).1
  obtain rfl | hpos := Nat.eq_zero_or_pos n
  · have hzero : x.allDigits = 0 := by simpa using hvalue
    obtain ⟨y, hy, hnegative, hunits⟩ := scaled?_zero x.power
    refine ⟨y, toDouble_of_fits (hzero ▸ Nat.zero_le _) hexponent (hzero ▸ hy), hnegative, ?_⟩
    rw [hunits, Nat.zero_mul]
  obtain hpower | hpower := Int.le_total 0 x.power
  · obtain ⟨z, hz⟩ := Int.eq_ofNat_of_zero_le hpower
    exact toDouble_of_divisor hpos hn (by simpa [hz] using hvalue) hz hexponent
  · obtain ⟨z, hz⟩ := Int.exists_eq_neg_ofNat hpower
    have hdigits : x.allDigits = n * 10 ^ z := by simpa [hz] using hvalue
    obtain ⟨j, -, hle, -, htoDouble⟩ := toDouble_of_multiple hx hpos (by omega) hdigits hz hexponent
    have hplaces := zeros_le hpos hle
    have hdouble := exact_mul_pow (by omega) hle fun _ => .inl (by omega)
    obtain ⟨y, hy, hnegative, hunits⟩ := scaled?_of_exact hdouble (show (-(j : Int)).natAbs ≤ 22 by omega)
      (show n < 0x20000000000000 by omega) (by simp)
    exact ⟨y, htoDouble y hy, hnegative, hunits⟩

/-- Negative zero is zero, too. -/
theorem denotes_withSign {x : Double} {n : Nat} {negative : Bool} (hnegative : x.negative = false)
    (hunits : x.units = n * Double.one) (hsign : negative → n = 0) :
    (Number.double (withSign negative x)).Denotes n := by
  cases negative with
  | false => exact ⟨hunits, by rw [withSign, if_neg Bool.false_ne_true, Double.isNegative, hnegative]; rfl⟩
  | true =>
    obtain rfl := hsign rfl
    have hzero : x.isZero := Double.isZero_of_units (by rw [hunits, Nat.zero_mul])
    refine ⟨hunits, ?_⟩
    have hneg : x.neg.isZero := hzero
    rw [withSign, if_pos rfl, Double.isNegative, hneg, Bool.not_true, Bool.and_false]

theorem denotes_toInteger? {x : Numeral} {n : Nat} (hexact : x.exact = n) {m : Number}
    (h : x.toInteger? = some m) : m.Denotes n := by
  obtain ⟨hvalue, hsign⟩ := allDigits_of_exact hexact
  rw [toInteger?] at h
  split at h
  · rename_i s hfraction hexponent habsorb
    have hdigits : x.allDigits = s := by
      have hvalue := absorb_value significandBound 0 x.whole
      rw [habsorb] at hvalue
      rw [allDigits, hfraction, Option.getD_none, List.append_nil]
      exact hvalue.symm
    have hpower : x.power = 0 := by
      rw [power, hfraction, hexponent]
      rfl
    obtain rfl : s = n := by simpa [hdigits, hpower] using hvalue
    split at h
    · rw [if_pos (hsign ‹_›)] at h
      cases h
    · rw [Number.ofInt?] at h
      split at h
      · cases h
        rfl
      · cases h
  · cases h

/-- A small natural number is read as itself, in whatever way it is spelled. -/
theorem value_of_exact {x : Numeral} (hx : x.WellFormed) {n : Nat} (hn : n ≤ 65535) (hexact : x.exact = n)
    (hexponent : ∀ e, x.exponent = some e → digitsValue 0 e.digits ≤ exponentBound) :
    ∃ m, x.value = .ok m ∧ m.Denotes n := by
  rw [value]
  cases hinteger : x.toInteger? with
  | some m => exact ⟨m, rfl, denotes_toInteger? hexact hinteger⟩
  | none =>
    obtain ⟨y, hy, hnegative, hunits⟩ := toDouble_of_exact hx hn hexact hexponent
    refine ⟨_, by rw [hy]; rfl, denotes_withSign hnegative hunits (allDigits_of_exact hexact).2⟩

end Json.Numeral
end ServiceSchema
