/-! # Doubles
A finite double is kept as exact data: a sign and a magnitude of `mantissa * 2 ^ scale` units, one unit
being `2 ^ -1074`. Each finite double has exactly one such form, so equality is equality of doubles
with the two zeros apart. Arithmetic rounds an exact quotient once, to nearest, a half to even. -/
namespace ServiceSchema

structure Double where
  negative : Bool
  mantissa : Nat
  scale : Nat
  mantissa_lt : mantissa < 0x20000000000000
  normal : scale ≠ 0 → 0x10000000000000 ≤ mantissa
  scale_le : scale ≤ 2045
deriving DecidableEq

namespace Double

/-- Refuses parts that name no finite double: too large a scale, or a form that is not normal. -/
def ofParts? (negative : Bool) (mantissa scale : Nat) : Option Double :=
  if h : mantissa < 0x20000000000000 ∧ (scale ≠ 0 → 0x10000000000000 ≤ mantissa) ∧ scale ≤ 2045 then
    some ⟨negative, mantissa, scale, h.1, h.2.1, h.2.2⟩
  else none

theorem ofParts?_self (x : Double) : ofParts? x.negative x.mantissa x.scale = some x := by
  simp only [ofParts?]
  rw [dif_pos ⟨x.mantissa_lt, x.normal, x.scale_le⟩]

def zero (negative : Bool) : Double := ⟨negative, 0, 0, by decide, by simp, by decide⟩

def neg (x : Double) : Double := { x with negative := !x.negative }

/-- The magnitude in units of `2 ^ -1074`. -/
def units (x : Double) : Nat := x.mantissa * Nat.pow 2 x.scale

/-- How many units make up one. -/
def one : Nat := Nat.pow 2 1074

/-- The quotient rounded to nearest, a half to the even neighbour. -/
def nearestQuotient (num den : Nat) : Nat :=
  let q := num / den
  let r := num % den
  if 2 * r < den then q
  else if den < 2 * r then q + 1
  else q + q % 2

/-- The double nearest to `num / den` units; none when it is beyond the largest one. -/
def nearest (negative : Bool) (num den : Nat) : Option Double :=
  let scale := (num / den).log2 - 52
  let mantissa := nearestQuotient num (den * Nat.pow 2 scale)
  if mantissa = 0x20000000000000 then ofParts? negative 0x10000000000000 (scale + 1)
  else ofParts? negative mantissa scale

def ofNat? (n : Nat) : Option Double := nearest false (n * one) 1

def mul? (x y : Double) : Option Double :=
  nearest (x.negative != y.negative) (x.units * y.units) one

/-- Division by a double other than zero. -/
def div? (x y : Double) : Option Double :=
  nearest (x.negative != y.negative) (x.units * one) y.units

/-- The double nearest to a power of ten. -/
def pow10? (e : Nat) : Option Double := ofNat? (Nat.pow 10 e)

def isZero (x : Double) : Bool := x.mantissa == 0

/-- No fractional part. -/
def isIntegral (x : Double) : Bool := x.units % one == 0

/-- The integer part of the magnitude. -/
def floor (x : Double) : Nat := x.units / one

def isNegative (x : Double) : Bool := x.negative && !x.isZero

end Double
end ServiceSchema
