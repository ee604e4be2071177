import Mathlib.Data.Nat.Digits.Defs
import ServiceSchema.Proofs.Json.Numeral

/-! # Printed doubles
A double is printed as a numeral for its shortest decimal, an integer with a zero after the point. The reader gives
the double back if it can take all digits of the numeral into an exact significand and has no more than 22 places to
move the point by. -/
namespace ServiceSchema
open ServiceSchema.Json

/-- A numeral that stands for a decimal, has a point or an exponent, and has the characters `cs`. -/
structure Decimal.SpelledBy (d : Decimal) (cs : List Char) (x : Numeral) : Prop where
  wellFormed : x.WellFormed
  spelling : x.spelling = cs
  allDigits : x.allDigits = d.digits
  power : x.power = d.exponent
  kind : x.fraction.isSome ∨ x.exponent.isSome
  exponent : ∀ e, x.exponent = some e → digitsValue 0 e.digits = d.leading.natAbs

namespace Decimal

/-! ## Digits -/

theorem exists_digits {n : Nat} (hn : n ≠ 0) : ∃ d ds, Nat.toDigits 10 n = (d :: ds).map Nat.digitChar ∧
    (∀ e ∈ d :: ds, e < 10) ∧ digitsValue 0 (d :: ds) = n ∧ d ≠ 0 := by
  obtain ⟨d, ds, hdigits, hlt, hvalue, hlead⟩ := toDigits_spec n
  refine ⟨d, ds, hdigits, hlt, hvalue, ?_⟩
  rintro rfl
  rw [hlead rfl] at hvalue
  exact hn hvalue.symm

/-- The place of the leading digit is that of the last one and as many as there are digits after the first. -/
theorem leading_eq {d : Decimal} {a : Nat} {ds : List Nat}
    (h : Nat.toDigits 10 d.digits = (a :: ds).map Nat.digitChar) : d.leading = d.exponent + ds.length := by
  have hlength : d.digitChars.length = ds.length + 1 := by simp [digitChars, h]
  rw [leading, hlength]
  omega

theorem digitsValue_zeros (n k : Nat) : digitsValue n (List.replicate k 0) = n * 10 ^ k := by
  induction k generalizing n with
  | zero => rw [Nat.pow_zero, Nat.mul_one]; rfl
  | succ k ih =>
    have hstep : digitsValue n (List.replicate (k + 1) 0) = digitsValue (n * 10) (List.replicate k 0) := rfl
    rw [hstep, ih, Nat.pow_succ', Nat.mul_assoc]

theorem digitsValue_lt (n : Nat) {ds : List Nat} (h : ∀ d ∈ ds, d < 10) :
    digitsValue n ds < (n + 1) * 10 ^ ds.length := by
  induction ds generalizing n with
  | nil =>
    rw [List.length_nil, Nat.pow_zero, Nat.mul_one]
    exact Nat.lt_succ_self n
  | cons d ds ih =>
    have hd : d < 10 := h d List.mem_cons_self
    have hmul := Nat.mul_le_mul_right (10 ^ ds.length) (show n * 10 + d + 1 ≤ (n + 1) * 10 by omega)
    rw [List.length_cons, Nat.pow_succ', ← Nat.mul_assoc]
    exact Nat.lt_of_lt_of_le (ih _ fun e he => h e (List.mem_cons_of_mem d he)) hmul

theorem lt_of_mem_zeros {k d : Nat} (h : d ∈ List.replicate k 0) : d < 10 := by
  rw [List.eq_of_mem_replicate h]
  decide

/-! ## Positional notation -/

def padded (d : Decimal) : Decimal := ⟨d.digits * 10 ^ (d.exponent.toNat + 1), -1⟩

theorem plain_integer {d : Decimal} (hd : d.digits ≠ 0) (he : 0 ≤ d.exponent) (negative : Bool) :
    ∃ x, x.negative = negative ∧ d.padded.SpelledBy d.plain x := by
  obtain ⟨a, ds, hdigits, hlt, hvalue, hlead⟩ := exists_digits hd
  refine ⟨⟨negative, a :: (ds ++ List.replicate d.exponent.toNat 0), some [0], none⟩, rfl, ?_⟩
  constructor
  · refine ⟨⟨a, _, rfl, fun h => absurd h hlead, ?_⟩, ?_, nofun⟩
    · rw [← List.cons_append]
      exact List.forall_mem_append.2 ⟨hlt, fun e => lt_of_mem_zeros⟩
    · rintro _ ⟨⟩
      simp
  · have hzero : Nat.digitChar 0 = '0' := rfl
    rw [plain, if_pos he, digitChars, hdigits]
    simp [Numeral.spelling, Numeral.fractionChars, Numeral.exponentChars, hzero]
  · have hzeros : a :: (ds ++ List.replicate d.exponent.toNat 0) ++ [0]
        = (a :: ds) ++ List.replicate (d.exponent.toNat + 1) 0 := by
      rw [List.replicate_succ']
      simp
    rw [Numeral.allDigits, Option.getD_some, hzeros, Numeral.digitsValue_append, hvalue, digitsValue_zeros, padded]
  · rfl
  · exact .inl rfl
  · nofun

theorem plain_point {d : Decimal} (hd : d.digits ≠ 0) (he : ¬ 0 ≤ d.exponent) (hleading : 0 ≤ d.leading)
    (negative : Bool) : ∃ x, x.negative = negative ∧ d.SpelledBy d.plain x := by
  obtain ⟨a, ds, hdigits, hlt, hvalue, hlead⟩ := exists_digits hd
  have hplaces := leading_eq hdigits
  obtain ⟨k, hk⟩ : ∃ k : Nat, d.leading = k := ⟨d.leading.toNat, by omega⟩
  refine ⟨⟨negative, a :: ds.take k, some (ds.drop k), none⟩, rfl, ?_⟩
  constructor
  · refine ⟨⟨a, _, rfl, fun h => absurd h hlead, fun e h => ?_⟩, ?_, nofun⟩
    · exact hlt e (List.cons_subset_cons a (List.take_subset k ds) h)
    · rintro _ ⟨⟩
      refine ⟨fun h => ?_, fun e h => hlt e (List.mem_cons_of_mem a (List.mem_of_mem_drop h))⟩
      have := List.drop_eq_nil_iff.1 h
      omega
  · rw [plain, if_neg he, if_pos hleading, digitChars, hdigits, hk]
    simp [Numeral.spelling, Numeral.fractionChars, Numeral.exponentChars, List.map_take, List.map_drop]
  · rw [Numeral.allDigits, Option.getD_some, List.cons_append, List.take_append_drop, hvalue]
  · rw [Numeral.power, Option.elim_none, Option.getD_some, List.length_drop]
    omega
  · exact .inl rfl
  · nofun

theorem plain_fraction {d : Decimal} (hd : d.digits ≠ 0) (he : ¬ 0 ≤ d.exponent) (hleading : ¬ 0 ≤ d.leading)
    (negative : Bool) : ∃ x, x.negative = negative ∧ d.SpelledBy d.plain x := by
  obtain ⟨a, ds, hdigits, hlt, hvalue, hlead⟩ := exists_digits hd
  have hplaces := leading_eq hdigits
  refine ⟨⟨negative, [0], some (List.replicate (-d.leading - 1).toNat 0 ++ a :: ds), none⟩, rfl, ?_⟩
  constructor
  · refine ⟨⟨0, [], rfl, fun _ => rfl, by simp⟩, ?_, nofun⟩
    rintro _ ⟨⟩
    exact ⟨by simp, List.forall_mem_append.2 ⟨fun e => lt_of_mem_zeros, hlt⟩⟩
  · rw [plain, if_neg he, if_neg hleading, digitChars, hdigits]
    simp [Numeral.spelling, Numeral.fractionChars, Numeral.exponentChars]
  · have hzeros : [0] ++ (List.replicate (-d.leading - 1).toNat 0 ++ a :: ds)
        = List.replicate ((-d.leading - 1).toNat + 1) 0 ++ a :: ds := by
      rw [List.replicate_succ]
      simp
    rw [Numeral.allDigits, Option.getD_some, hzeros, Numeral.digitsValue_append, digitsValue_zeros,
      Nat.zero_mul, hvalue]
  · rw [Numeral.power, Option.elim_none, Option.getD_some, List.length_append, List.length_replicate, List.length_cons]
    omega
  · exact .inl rfl
  · nofun

/-! ## Scientific notation -/

/-- A point stands behind the first digit if there are more. -/
theorem exists_fraction {d : Decimal} {a : Nat} {ds : List Nat}
    (h : Nat.toDigits 10 d.digits = (a :: ds).map Nat.digitChar) :
    ∃ fraction : Option (List Nat), fraction.getD [] = ds ∧ (∀ fs, fraction = some fs → fs ≠ []) ∧
      d.scientific = Nat.digitChar a :: (Numeral.fractionChars fraction
        ++ 'e' :: (if d.leading < 0 then '-' else '+') :: Nat.toDigits 10 d.leading.natAbs) := by
  rw [scientific, digitChars, h]
  cases ds with
  | nil => exact ⟨none, rfl, nofun, rfl⟩
  | cons b ds =>
    refine ⟨some (b :: ds), rfl, ?_, rfl⟩
    rintro _ ⟨⟩
    exact List.cons_ne_nil b ds

theorem scientific_spelled {d : Decimal} (hd : d.digits ≠ 0) (negative : Bool) :
    ∃ x, x.negative = negative ∧ d.SpelledBy d.scientific x := by
  obtain ⟨a, ds, hdigits, hlt, hvalue, hlead⟩ := exists_digits hd
  obtain ⟨b, es, hedigits, helt, hevalue, -⟩ := toDigits_spec d.leading.natAbs
  obtain ⟨fraction, hds, hfraction, hchars⟩ := exists_fraction hdigits
  have hplaces := leading_eq hdigits
  refine ⟨⟨negative, [a], fraction, some ⟨decide (d.leading < 0), b :: es⟩⟩, rfl, ?_⟩
  constructor
  · refine ⟨⟨a, [], rfl, fun _ => rfl, by simpa using hlt a List.mem_cons_self⟩, ?_, ?_⟩
    · rintro fs rfl
      obtain rfl : fs = ds := hds
      exact ⟨hfraction fs rfl, fun e he => hlt e (List.mem_cons_of_mem a he)⟩
    · rintro _ ⟨⟩
      exact ⟨List.cons_ne_nil _ _, helt⟩
  · rw [hchars, hedigits]
    simp [Numeral.spelling, Numeral.exponentChars]
  · rw [Numeral.allDigits, hds, List.singleton_append, hvalue]
  · have hexponent : Exponent.value ⟨decide (d.leading < 0), b :: es⟩ = d.leading := by
      simp only [Exponent.value, hevalue, decide_eq_true_eq]
      split <;> omega
    rw [Numeral.power, Option.elim_some, hds, hexponent, hplaces]
    omega
  · exact .inr rfl
  · rintro _ ⟨⟩
    exact hevalue

/-! ## Either notation -/

/-- The decimal with the digits it is printed with: an integer in positional notation has one more. -/
def printed (d : Decimal) : Decimal := if 0 ≤ d.exponent ∧ d.leading < 16 then d.padded else d

theorem exponent_le_leading {d : Decimal} (hd : d.digits ≠ 0) : d.exponent ≤ d.leading := by
  obtain ⟨a, ds, hdigits, -, -, -⟩ := exists_digits hd
  rw [leading_eq hdigits]
  omega

theorem exists_numeral {d : Decimal} (hd : d.digits ≠ 0) (negative : Bool) :
    ∃ x, x.negative = negative ∧
      d.printed.SpelledBy (if -5 ≤ d.leading ∧ d.leading < 16 then d.plain else d.scientific) x := by
  have hle := exponent_le_leading hd
  rw [printed]
  by_cases hplain : -5 ≤ d.leading ∧ d.leading < 16
  · rw [if_pos hplain]
    by_cases he : 0 ≤ d.exponent
    · rw [if_pos ⟨he, hplain.2⟩]
      exact plain_integer hd he negative
    · rw [if_neg fun h => he h.1]
      by_cases hleading : 0 ≤ d.leading
      · exact plain_point hd he hleading negative
      · exact plain_fraction hd he hleading negative
  · rw [if_neg hplain, if_neg (by omega)]
    exact scientific_spelled hd negative

/-- The zero after the point changes nothing. -/
theorem holds_padded {i : Double.Interval} {d : Decimal} (he : 0 ≤ d.exponent) (h : i.Holds d) :
    i.Holds d.padded := by
  have hfactor : 10 ^ (- -1 : Int).toNat = 10 ^ (-d.exponent).toNat * 10 := by
    rw [show (-d.exponent).toNat = 0 by omega]
    rfl
  have hdigits (u : Nat) : 4 * (d.digits * 10 ^ (d.exponent.toNat + 1) * 10 ^ (-1 : Int).toNat * u)
      = 4 * (d.digits * 10 ^ d.exponent.toNat * u) * 10 := by
    rw [show (-1 : Int).toNat = 0 from rfl]
    ring
  rw [Double.Interval.Holds, padded, hfactor, hdigits Double.one, i.contains_mul (by decide)]
  exact h

theorem holds_printed {i : Double.Interval} {d : Decimal} (h : i.Holds d) : i.Holds d.printed := by
  rw [printed]
  split
  · exact holds_padded (‹_ ∧ _›).1 h
  · exact h

/-- The leading digit says how large a decimal is. -/
theorem lt_pow_leading {d : Decimal} (hd : d.digits ≠ 0) (he : 0 ≤ d.exponent) :
    d.digits * 10 ^ d.exponent.toNat < 10 ^ (d.leading.toNat + 1) := by
  obtain ⟨a, ds, hdigits, hlt, hvalue, -⟩ := exists_digits hd
  have hbound : d.digits < 10 ^ (ds.length + 1) := by
    have hbound := digitsValue_lt 0 hlt
    rwa [hvalue, Nat.zero_add, Nat.one_mul, List.length_cons] at hbound
  have hsum : d.leading.toNat + 1 = ds.length + 1 + d.exponent.toNat := by
    rw [leading_eq hdigits]
    omega
  rw [hsum, Nat.pow_add]
  exact Nat.mul_lt_mul_of_pos_right hbound (Nat.pow_pos (by decide))

/-- A decimal of moderate size has a moderate exponent in scientific notation. -/
theorem leading_le {d : Decimal} (hdigits : Double.Exact d.digits) (hexponent : d.exponent.natAbs ≤ 22) :
    d.leading.natAbs ≤ Numeral.exponentBound := by
  have hlength : d.digitChars.length ≤ 20 :=
    Nat.toDigits_length 10 d.digits 20 (by decide) (Nat.lt_of_le_of_lt hdigits.le (by decide))
  rw [leading, Numeral.exponentBound]
  omega

/-- With few digits, those that are printed are a double. -/
theorem exact_printed {d : Decimal} (hd : d.digits ≠ 0) (hdigits : d.digits < 10 ^ 15) (hhigh : d.leading < 15) :
    Double.Exact d.printed.digits := by
  rw [printed]
  split
  · rename_i hinteger
    have hlt : d.digits * 10 ^ d.exponent.toNat < 10 ^ 15 :=
      Nat.lt_of_lt_of_le (lt_pow_leading hd hinteger.1) (Nat.pow_le_pow_right (by decide) (by omega))
    -- one zero more makes the digits even
    refine ⟨5 * (d.digits * 10 ^ d.exponent.toNat), 1, by omega, by decide, ?_⟩
    rw [padded, Nat.pow_succ]
    ring
  · exact ⟨d.digits, 0, by omega, by decide, by rw [Nat.pow_zero, Nat.mul_one]⟩

/-- With few digits and a moderate size, the point is moved by few places. -/
theorem exponent_printed {d : Decimal} (hdigits : d.digits < 10 ^ 15) (hlow : -5 ≤ d.leading)
    (hhigh : d.leading < 15) : d.printed.exponent.natAbs ≤ 22 := by
  have hlength : d.digitChars.length ≤ 15 := Nat.toDigits_length 10 _ 15 (by decide) hdigits
  rw [leading] at hlow hhigh
  rw [printed]
  split
  · exact Nat.le_add_left 1 21
  · omega

end Decimal

namespace Double

/-! ## Doubles -/

def printed (x : Double) : Decimal := if x.isZero then ⟨0, -1⟩ else (x.shortest .toEven).printed

theorem zero_spelled (negative : Bool) :
    (⟨0, -1⟩ : Decimal).SpelledBy ['0', '.', '0'] ⟨negative, [0], some [0], none⟩ := by
  constructor
  · exact ⟨⟨0, [], rfl, fun _ => rfl, by simp⟩, by simp, nofun⟩
  · rfl
  · rfl
  · rfl
  · exact .inl rfl
  · nofun

/-- A double is printed as its sign and a numeral. -/
theorem exists_numeral (x : Double) : ∃ cs n, x.print = minus x.negative ++ cs ∧ n.negative = x.negative ∧
    x.printed.SpelledBy cs n := by
  rw [print, printed]
  cases hx : x.isZero with
  | true => exact ⟨['0', '.', '0'], ⟨x.negative, [0], some [0], none⟩, rfl, rfl, zero_spelled x.negative⟩
  | false =>
    obtain ⟨n, hnegative, hspelled⟩ := Decimal.exists_numeral
      (digits_ne_zero_of_holds hx (holds_shortest hx .toEven)) x.negative
    exact ⟨_, n, rfl, hnegative, hspelled⟩

theorem holds_printed (x : Double) : x.interval.Holds x.printed := by
  rw [printed]
  cases hx : x.isZero with
  | true =>
    have hmid : x.interval.mid = 0 := by
      have hm : x.mantissa = 0 := by simpa [isZero] using hx
      simp [interval, units, hm]
    have hcontains := contains_mid x (Nat.pow_pos (by decide) : 0 < 10 ^ (- -1 : Int).toNat)
    rw [if_pos rfl, Interval.Holds, Nat.zero_mul, Nat.zero_mul, Nat.mul_zero]
    rwa [hmid, Nat.zero_mul] at hcontains
  | false => exact Decimal.holds_printed (holds_shortest hx .toEven)

/-- What a double is read as depends on the value of its numeral only. -/
theorem exists_lexemes (x : Double) : ∃ n : Numeral, n.negative = x.negative ∧ n.allDigits = x.printed.digits ∧
    n.power = x.printed.exponent ∧ (n.fraction.isSome ∨ n.exponent.isSome) ∧
    (∀ e, n.exponent = some e → digitsValue 0 e.digits = x.printed.leading.natAbs) ∧
    ∀ rest, Delimits rest → match n.value with
      | .ok m => lexemes (x.print ++ rest) = .number m :: lexemes rest
      | .error _ => ∃ f, lexemes (x.print ++ rest) = [.broken f] := by
  obtain ⟨cs, n, hprint, hnegative, hspelled⟩ := x.exists_numeral
  refine ⟨n, hnegative, hspelled.allDigits, hspelled.power, hspelled.kind, hspelled.exponent, fun rest hrest => ?_⟩
  have hnumeral := Numeral.readNumeral_spelling hspelled.wellFormed hrest
  rw [Numeral.spelling, List.append_assoc] at hnumeral
  have hlexemes := Numeral.lexemes_of_readNumeral hspelled.wellFormed hnumeral
  rwa [← List.append_assoc (n.whole.map _), ← Numeral.spelling, hspelled.spelling, hnegative, ← List.append_assoc,
    ← hprint] at hlexemes

/-- A double whose numeral the reader computes with one rounding only: its digits are a double, and so is the power
of ten. -/
structure Short (x : Double) : Prop where
  digits : Exact x.printed.digits
  exponent : x.printed.exponent.natAbs ≤ 22

/-- All doubles from `0.00001` on and below `10 ^ 15` with no more than fifteen digits are short. -/
theorem short_of_few_digits {x : Double} (hdigits : (x.shortest .toEven).digits < 10 ^ 15)
    (hlow : -5 ≤ (x.shortest .toEven).leading) (hhigh : (x.shortest .toEven).leading < 15) : x.Short := by
  cases hx : x.isZero with
  | true =>
    have hprinted : x.printed = ⟨0, -1⟩ := by rw [printed, hx, if_pos rfl]
    constructor
    · rw [hprinted]
      exact ⟨0, 0, by decide, by decide, rfl⟩
    · rw [hprinted]
      decide
  | false =>
    have hprinted : x.printed = (x.shortest .toEven).printed := by rw [printed, hx, if_neg Bool.false_ne_true]
    have hd := digits_ne_zero_of_holds hx (holds_shortest hx .toEven)
    constructor
    · rw [hprinted]
      exact Decimal.exact_printed hd hdigits hhigh
    · rw [hprinted]
      exact Decimal.exponent_printed hdigits hlow hhigh

/-- A short double is read back from its numeral. -/
theorem readsBack_of_short {x : Double} (h : x.Short) : (Number.double x).ReadsBack := by
  obtain ⟨n, hnegative, hdigits, hpower, hkind, hexponent, hlexemes⟩ := x.exists_lexemes
  have hholds : x.interval.Holds ⟨n.allDigits, n.power⟩ := by
    rw [hdigits, hpower]
    exact x.holds_printed
  have hvalue := Numeral.value_of_holds hkind (hdigits ▸ h.digits) (hpower ▸ h.exponent)
    (fun e he => hexponent e he ▸ Decimal.leading_le h.digits h.exponent) hholds
  rw [hnegative] at hvalue
  intro rest hrest
  have hread := hlexemes rest hrest
  rw [hvalue] at hread
  exact hread

end Double
end ServiceSchema
