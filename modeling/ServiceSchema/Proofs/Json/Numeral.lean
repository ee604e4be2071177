import ServiceSchema.Proofs.Double.Shortest
import ServiceSchema.Proofs.Json.Spelling

/-! # What numerals are read as
A numeral whose digits fit the significand stands for the digits times a power of ten. If both factors are doubles
the reader rounds once only, and a decimal in the interval of a double becomes that double. -/
namespace ServiceSchema.Json

/-! ## Computing a double -/

/-- With both factors exact, the product or the quotient is the double whose interval has the decimal. -/
theorem scaled?_of_holds {x : Double} {s : Nat} {e : Int} (hs : Double.Exact s) (he : e.natAbs ≤ 22)
    (h : x.interval.Holds ⟨s, e⟩) : Numeral.scaled? s e = some { x with negative := false } := by
  obtain ⟨m, k, hm, hk, rfl⟩ := hs
  obtain ⟨y, hy, hnegative, hunits⟩ := Double.ofNat?_mul_pow hm (show k ≤ 971 by omega)
  rw [Numeral.scaled?, hy, Option.bind_some]
  rw [Double.Interval.Holds, ← x.interval.contains_mul Double.one_pos] at h
  split
  · obtain ⟨z, hz, hznegative, hzunits⟩ := Double.pow10?_exact (show e.toNat ≤ 22 by omega)
    rw [if_pos (by omega : e ≤ 308), hz, Option.bind_some, Double.mul?, hnegative, hznegative, hunits, hzunits]
    refine Double.nearest_of_contains Double.one_pos ?_ _
    have hproduct (u : Nat) : 4 * (m * 2 ^ k * u * (10 ^ e.toNat * u)) = 4 * (m * 2 ^ k * 10 ^ e.toNat * u) * u := by
      ring
    rw [hproduct]
    simp only [show (-e).toNat = 0 by omega, Nat.pow_zero, Nat.one_mul] at h
    exact h
  · obtain ⟨z, hz, hznegative, hzunits⟩ := Double.pow10?_exact he
    rw [show e.natAbs / 308 = 0 by omega, Numeral.divideDown, hz, Option.bind_some, Double.div?, hnegative, hznegative,
      hunits, hzunits]
    refine Double.nearest_of_contains (Nat.mul_pos (Nat.pow_pos (by decide)) Double.one_pos) ?_ _
    have hproduct (u : Nat) : 4 * (m * 2 ^ k * u * u) = 4 * (m * 2 ^ k * 1 * u) * u := by ring
    rw [hproduct]
    rwa [show (-e).toNat = e.natAbs by omega, show e.toNat = 0 by omega, Nat.pow_zero] at h

/-! ## The digits of a numeral -/

def Exponent.value (e : Exponent) : Int :=
  if e.negative then -(digitsValue 0 e.digits : Int) else digitsValue 0 e.digits

namespace Numeral

def allDigits (x : Numeral) : Nat := digitsValue 0 (x.whole ++ x.fraction.getD [])

/-- What the number of all digits is to be multiplied by, as a power of ten. -/
def power (x : Numeral) : Int := x.exponent.elim 0 Exponent.value - (x.fraction.getD []).length

theorem digitsValue_append (n : Nat) (ds es : List Nat) :
    digitsValue n (ds ++ es) = digitsValue (digitsValue n ds) es := List.foldl_append

theorem parts_of_fits {x : Numeral} (h : x.allDigits ≤ significandBound) :
    parts x.whole (x.fraction.getD []) = (x.allDigits, -((x.fraction.getD []).length : Int)) := by
  rw [allDigits, digitsValue_append] at h ⊢
  have hwhole : digitsValue 0 x.whole ≤ significandBound := Nat.le_trans (le_digitsValue _ _) h
  rw [parts, absorb_digits hwhole, absorb_digits h]
  simp

/-- A numeral whose exponent is not too long is computed from its parts. -/
theorem toDouble_of_parts {x : Numeral} {s : Nat} {e : Int} (hparts : parts x.whole (x.fraction.getD []) = (s, e))
    (hexponent : ∀ e, x.exponent = some e → digitsValue 0 e.digits ≤ exponentBound) {y : Double}
    (h : scaled? s (e + x.exponent.elim 0 Exponent.value) = some y) : x.toDouble = .ok (withSign x.negative y) := by
  -- a variable, so that no check evaluates it
  obtain ⟨compute, hcompute⟩ : ∃ compute, compute = scaled? s := ⟨_, rfl⟩
  simp only [toDouble, hparts, ← hcompute]
  rw [← hcompute] at h
  cases hx : x.exponent with
  | none =>
    rw [hx, Option.elim_none, Int.add_zero] at h
    simp only [h]
  | some d =>
    have hvalue : e + d.value = if d.negative then e - digitsValue 0 d.digits else e + digitsValue 0 d.digits := by
      rw [Exponent.value]
      split <;> omega
    rw [hx, Option.elim_some, hvalue] at h
    simp only [absorb_digits (hexponent d hx), h]

/-- A numeral with few enough digits is computed from all of them. -/
theorem toDouble_of_fits {x : Numeral} (hdigits : x.allDigits ≤ significandBound)
    (hexponent : ∀ e, x.exponent = some e → digitsValue 0 e.digits ≤ exponentBound) {y : Double}
    (h : scaled? x.allDigits x.power = some y) : x.toDouble = .ok (withSign x.negative y) := by
  apply toDouble_of_parts (parts_of_fits hdigits) hexponent
  rwa [Int.add_comm, ← Int.sub_eq_add_neg, ← power]

theorem withSign_nonneg (x : Double) (negative : Bool) :
    withSign negative { x with negative := false } = { x with negative } := by cases negative <;> rfl

theorem toInteger?_of_kind {x : Numeral} (h : x.fraction.isSome ∨ x.exponent.isSome) : x.toInteger? = none := by
  rw [toInteger?]
  split
  · simp_all
  · rfl

/-- A numeral with a point or an exponent, all of whose digits count, in the interval of a double. -/
theorem value_of_holds {x : Numeral} {y : Double} (hkind : x.fraction.isSome ∨ x.exponent.isSome)
    (hdigits : Double.Exact x.allDigits) (hpower : x.power.natAbs ≤ 22)
    (hexponent : ∀ e, x.exponent = some e → digitsValue 0 e.digits ≤ exponentBound)
    (h : y.interval.Holds ⟨x.allDigits, x.power⟩) :
    x.value = .ok (.double { y with negative := x.negative }) := by
  have hbound : x.allDigits ≤ significandBound := hdigits.le
  have hdouble := toDouble_of_fits hbound hexponent (scaled?_of_holds hdigits hpower h)
  rw [value, toInteger?_of_kind hkind, hdouble, withSign_nonneg]
  rfl

/-! ## Reading a spelling -/

def fractionChars (fraction : Option (List Nat)) : List Char :=
  fraction.elim [] fun ds => '.' :: ds.map Nat.digitChar

def exponentChars (exponent : Option Exponent) : List Char :=
  exponent.elim [] fun e => 'e' :: (if e.negative then '-' else '+') :: e.digits.map Nat.digitChar

def spelling (x : Numeral) : List Char :=
  x.whole.map Nat.digitChar ++ (fractionChars x.fraction ++ exponentChars x.exponent)

/-- Digits where there must be some, and no zero in front of other digits. -/
structure WellFormed (x : Numeral) : Prop where
  whole : ∃ d ds, x.whole = d :: ds ∧ (d = 0 → ds = []) ∧ ∀ e ∈ d :: ds, e < 10
  fraction : ∀ ds, x.fraction = some ds → ds ≠ [] ∧ ∀ d ∈ ds, d < 10
  exponent : ∀ e, x.exponent = some e → e.digits ≠ [] ∧ ∀ d ∈ e.digits, d < 10

theorem someDigits_map {ds : List Nat} (h : ds ≠ [] ∧ ∀ d ∈ ds, d < 10) {rest : List Char}
    (hrest : Lexeme.digits rest = ([], rest)) :
    Lexeme.someDigits (ds.map Nat.digitChar ++ rest) = .ok (ds, rest) := by
  obtain ⟨d, ds, rfl⟩ := List.exists_cons_of_ne_nil h.1
  rw [Lexeme.someDigits, digits_map h.2 hrest]

theorem exponentPart_chars {exponent : Option Exponent}
    (h : ∀ e, exponent = some e → e.digits ≠ [] ∧ ∀ d ∈ e.digits, d < 10) {rest : List Char} (hrest : Delimits rest) :
    Lexeme.exponentPart (exponentChars exponent ++ rest) = .ok (exponent, rest) := by
  cases exponent with
  | none => exact exponentPart_of_delimits hrest
  | some e =>
    obtain ⟨negative, ds⟩ := e
    have hread := someDigits_map (h _ rfl) (digits_of_delimits hrest)
    have hsign : Lexeme.exponentPart (exponentChars (some ⟨negative, ds⟩) ++ rest)
        = Lexeme.exponentDigits negative (ds.map Nat.digitChar ++ rest) := by cases negative <;> rfl
    rw [hsign, Lexeme.exponentDigits, hread]
    rfl

theorem fractionPart_chars {fraction : Option (List Nat)}
    (h : ∀ ds, fraction = some ds → ds ≠ [] ∧ ∀ d ∈ ds, d < 10) {rest : List Char}
    (hrest : Lexeme.digits rest = ([], rest)) (hpoint : ∀ cs, rest ≠ '.' :: cs) :
    Lexeme.fractionPart (fractionChars fraction ++ rest) = .ok (fraction, rest) := by
  cases fraction with
  | none =>
    rw [fractionChars, Option.elim_none, List.nil_append, Lexeme.fractionPart]
    exact hpoint
  | some ds =>
    rw [fractionChars, Option.elim_some, List.cons_append, Lexeme.fractionPart, someDigits_map (h ds rfl) hrest]
    rfl

theorem digits_exponentChars (exponent : Option Exponent) {rest : List Char} (hrest : Delimits rest) :
    Lexeme.digits (exponentChars exponent ++ rest) = ([], exponentChars exponent ++ rest) ∧
      ∀ cs, exponentChars exponent ++ rest ≠ '.' :: cs := by
  cases exponent with
  | none =>
    refine ⟨digits_of_delimits hrest, ?_⟩
    rintro cs rfl
    exact hrest.2.1 rfl
  | some e =>
    refine ⟨rfl, fun cs heq => ?_⟩
    exact absurd (List.head_eq_of_cons_eq heq) (by decide)

theorem digits_fractionChars (fraction : Option (List Nat)) {rest : List Char}
    (hrest : Lexeme.digits rest = ([], rest)) :
    Lexeme.digits (fractionChars fraction ++ rest) = ([], fractionChars fraction ++ rest) := by
  cases fraction with
  | none => exact hrest
  | some ds => rfl

/-- A numeral is read from its digits and what its exponent is read from. -/
theorem readNumeral_of_exponent {x : Numeral} (h : x.WellFormed) {cs rest : List Char}
    (hexponent : Lexeme.exponentPart cs = .ok (x.exponent, rest)) (hdigits : Lexeme.digits cs = ([], cs))
    (hpoint : ∀ ds, cs ≠ '.' :: ds) :
    Lexeme.readNumeral x.negative (x.whole.map Nat.digitChar ++ (fractionChars x.fraction ++ cs)) = .ok (x, rest) := by
  obtain ⟨negative, whole, fraction, exponent⟩ := x
  obtain ⟨⟨d, ds, hds, hlead, hwhole⟩, hfraction, -⟩ := h
  obtain rfl : whole = d :: ds := hds
  rw [Lexeme.readNumeral, wholeDigits_map hwhole hlead (digits_fractionChars fraction hdigits)]
  simp only [bind, Except.bind, fractionPart_chars hfraction hdigits hpoint, hexponent]
  rfl

/-- A numeral is read from its characters. -/
theorem readNumeral_spelling {x : Numeral} (h : x.WellFormed) {rest : List Char} (hrest : Delimits rest) :
    Lexeme.readNumeral x.negative (x.spelling ++ rest) = .ok (x, rest) := by
  obtain ⟨hdigits, hpoint⟩ := digits_exponentChars x.exponent hrest
  rw [spelling, List.append_assoc, List.append_assoc]
  exact readNumeral_of_exponent h (exponentPart_chars h.exponent hrest) hdigits hpoint

theorem WellFormed.exists_digit {x : Numeral} (h : x.WellFormed) :
    ∃ c cs, x.whole.map Nat.digitChar = c :: cs ∧ (Lexeme.digit? c).isSome := by
  obtain ⟨d, ds, hwhole, -, hlt⟩ := h.whole
  refine ⟨_, _, by rw [hwhole, List.map_cons], ?_⟩
  rw [digit?_digitChar (hlt d List.mem_cons_self)]
  rfl

/-- A sign and a numeral make the lexeme of its value, which is broken if that is out of range. -/
theorem lexemes_of_readNumeral {x : Numeral} (h : x.WellFormed) {cs rest : List Char}
    (hread : Lexeme.readNumeral x.negative (x.whole.map Nat.digitChar ++ cs) = .ok (x, rest)) :
    match x.value with
      | .ok n => lexemes (minus x.negative ++ (x.whole.map Nat.digitChar ++ cs)) = .number n :: lexemes rest
      | .error _ => ∃ f, lexemes (minus x.negative ++ (x.whole.map Nat.digitChar ++ cs)) = [.broken f] := by
  obtain ⟨c, ds, hwhole, hc⟩ := h.exists_digit
  rw [hwhole, List.cons_append] at hread ⊢
  rw [lexemes_signed hc]
  simp only [Lexeme.readNumber, hread, bind, Except.bind]
  cases x.value with
  | ok n => rfl
  | error e => exact ⟨_, rfl⟩

end Numeral

end ServiceSchema.Json
