import ServiceSchema.Double

/-! # Shortest decimals
The decimal with the fewest digits that lies among the reals rounding to a double; of two such the nearer,
of two equally near the one that a rule for ties names. The search goes from coarse decimal grids to fine
ones, and the finest grid contains the double itself. -/
namespace ServiceSchema

/-- The number `digits * 10 ^ exponent`. -/
structure Decimal where
  digits : Nat
  exponent : Int
deriving DecidableEq

/-- Which of two equally near decimals to take: the one with an even last digit, or the larger one. -/
inductive Tie where
  | toEven
  | upward
deriving DecidableEq

/-- The choice between `d` and `d + 1`. -/
def Tie.choose (tie : Tie) (d : Nat) : Nat :=
  match tie with
  | .toEven => d + d % 2
  | .upward => d + 1

namespace Double

/-- A double and the two ends of the reals that round to it, in quarters of a unit.
The ends belong to the interval when the mantissa is even. -/
structure Interval where
  low : Nat
  mid : Nat
  high : Nat
  closed : Bool

/-- Below a power of two the next double is only half as far away as above it. -/
def interval (x : Double) : Interval :=
  let step := Nat.pow 2 x.scale
  let below := if x.mantissa = 0x10000000000000 ∧ x.scale ≠ 0 then step else 2 * step
  ⟨4 * x.units - below, 4 * x.units, 4 * x.units + 2 * step, x.mantissa % 2 == 0⟩

namespace Interval

def contains (i : Interval) (factor n : Nat) : Bool :=
  if i.closed then i.low * factor ≤ n && n ≤ i.high * factor
  else i.low * factor < n && n < i.high * factor

/-- The multiple of `10 ^ e` that stands for the interval, if one lies in it. -/
def point? (tie : Tie) (i : Interval) (e : Int) : Option Nat :=
  let factor := Nat.pow 10 (-e).toNat
  let grid := Nat.pow 10 e.toNat * (4 * one)
  let mid := i.mid * factor
  let d := mid / grid
  let r := mid % grid
  match i.contains factor (d * grid), i.contains factor ((d + 1) * grid) with
  | true, true =>
    if 2 * r < grid then some d
    else if grid < 2 * r then some (d + 1)
    else some (tie.choose d)
  | true, false => some d
  | false, true => some (d + 1)
  | false, false => none

/-- Tries the grids `10 ^ e`, `10 ^ (e - 1)`, … in turn. -/
def search (tie : Tie) (i : Interval) : Nat → Int → Decimal
  | 0, e => ⟨(i.point? tie e).getD 0, e⟩
  | n + 1, e =>
    match i.point? tie e with
    | some d => ⟨d, e⟩
    | none => i.search tie n (e - 1)

end Interval

/-- How many digits the integer part has; every coarser grid is out of reach. -/
def leadingExponent (x : Double) : Nat := (Nat.toDigits 10 x.floor).length

/-- The shortest decimal of a double, its sign left aside. -/
def shortest (tie : Tie) (x : Double) : Decimal :=
  if x.isZero then ⟨0, 0⟩
  else x.interval.search tie (x.leadingExponent + 1076) x.leadingExponent

end Double
end ServiceSchema
