import ServiceSchema.Json.Number

/-! # Numerals
A numeral is a number as it is spelled: sign, digits before and after the point, exponent. Its value is an
integer when the spelling has neither point nor exponent and the integer fits 64 bits; every other numeral
stands for a double. That double is computed in three steps, each of which may round: the leading digits that
fit an unsigned 64-bit significand, the nearest double of that significand, one multiplication or division
by a power of ten. -/
namespace ServiceSchema.Json

structure Exponent where
  negative : Bool
  digits : List Nat
deriving DecidableEq

structure Numeral where
  negative : Bool
  whole : List Nat
  fraction : Option (List Nat)
  exponent : Option Exponent
deriving DecidableEq

namespace Numeral

/-- Takes digits into the significand until the next one would pass the bound; returns those left over. -/
def absorb (bound : Nat) : Nat → List Nat → Nat × List Nat
  | n, [] => (n, [])
  | n, d :: ds => if n * 10 + d ≤ bound then absorb bound (n * 10 + d) ds else (n, d :: ds)

theorem absorb_length (bound n : Nat) (ds : List Nat) : (absorb bound n ds).2.length ≤ ds.length := by
  induction ds generalizing n with
  | nil => simp [absorb]
  | cons d ds ih =>
    simp only [absorb]
    split
    · exact Nat.le_trans (ih _) (by simp)
    · simp

def significandBound : Nat := 0xFFFFFFFFFFFFFFFF
def exponentBound : Nat := 0x7FFFFFFF

/-- Why a numeral stands for no double. An exponent that is too long is noticed at a digit of its own,
counted here; otherwise the fault shows at the end of the numeral. -/
inductive OutOfRange where
  | atEnd
  | atExponentDigit (count : Nat)
deriving DecidableEq

/-- Divides by `10 ^ 308` as long as the exponent is below `-308`; a value that has reached zero stays zero. -/
def divideDown : Nat → Double → Nat → Option Double
  | 0, x, e => (Double.pow10? e).bind x.div?
  | n + 1, x, e =>
    if e ≤ 308 then (Double.pow10? e).bind x.div?
    else if x.isZero then some x
    else ((Double.pow10? 308).bind x.div?).bind fun y => divideDown n y (e - 308)

/-- The double for `significand * 10 ^ e`. -/
def scaled? (significand : Nat) (e : Int) : Option Double :=
  (Double.ofNat? significand).bind fun x =>
    if 0 ≤ e then
      if e ≤ 308 then (Double.pow10? e.toNat).bind x.mul?
      else if x.isZero then some x
      else none
    else divideDown (e.natAbs / 308) x e.natAbs

def withSign (negative : Bool) (x : Double) : Double := if negative then x.neg else x

/-- The digits of a numeral as a significand and a power of ten. Digits before the point that do not fit
raise the power, digits after it that do not fit are dropped. -/
def parts (whole fraction : List Nat) : Nat × Int :=
  let w := absorb significandBound 0 whole
  let f := absorb significandBound w.1 fraction
  (f.1, (w.2.length : Int) - ((fraction.length - f.2.length : Nat) : Int))

def toDouble (x : Numeral) : Except OutOfRange Double :=
  let p := parts x.whole (x.fraction.getD [])
  let finish (e : Int) : Except OutOfRange Double :=
    match scaled? p.1 e with
    | some y => .ok (withSign x.negative y)
    | none => .error .atEnd
  match x.exponent with
  | none => finish p.2
  | some e =>
    match absorb exponentBound 0 e.digits with
    | (n, []) => finish (if e.negative then p.2 - n else p.2 + n)
    | (_, rest) =>
      if p.1 ≠ 0 ∧ !e.negative then .error (.atExponentDigit (e.digits.length - rest.length + 1))
      else .ok (Double.zero x.negative)

/-- An integer that fits, unless it is spelled `-0`. -/
def toInteger? (x : Numeral) : Option Number :=
  match x.fraction, x.exponent, absorb significandBound 0 x.whole with
  | none, none, (n, []) =>
    if x.negative then if n = 0 then none else Number.ofInt? (-n) else Number.ofInt? n
  | _, _, _ => none

def value (x : Numeral) : Except OutOfRange Number :=
  match x.toInteger? with
  | some n => .ok n
  | none => x.toDouble.map .double

end Numeral
end ServiceSchema.Json
