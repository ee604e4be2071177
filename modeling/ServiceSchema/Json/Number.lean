import ServiceSchema.Double

/-! # JSON numbers
A number is an integer of the signed or the unsigned 64-bit range, or a finite double. The two kinds
stay apart: `3` and `3.0` are different numbers that agree wherever an integer is asked for. -/
namespace ServiceSchema.Json

inductive Number where
  | integer (n : Int) (inRange : -0x8000000000000000 ≤ n ∧ n < 0x10000000000000000)
  | double (x : Double)
deriving DecidableEq

namespace Number

def ofInt? (n : Int) : Option Number :=
  if h : -0x8000000000000000 ≤ n ∧ n < 0x10000000000000000 then some (.integer n h) else none

theorem ofInt?_eq_some {n : Int} (h : -0x8000000000000000 ≤ n ∧ n < 0x10000000000000000) :
    ofInt? n = some (.integer n h) := dif_pos h

/-- A machine word as a number. -/
def ofWord (n : UInt64) : Number := .integer n.toNat (by have := n.toNat_lt; omega)

/-- Doubles without a fractional part count as integers. -/
def isIntegral : Number → Bool
  | .integer _ _ => true
  | .double x => x.isIntegral

/-- Strictly below the natural number `b`. -/
def isBelow (b : Nat) : Number → Bool
  | .integer n _ => n < b
  | .double x => x.isNegative || x.units < b * Double.one

/-- Strictly above the natural number `b`. -/
def isAbove (b : Nat) : Number → Bool
  | .integer n _ => b < n
  | .double x => !x.isNegative && b * Double.one < x.units

/-- The value as an unsigned 64-bit number, if it is integral and not negative; the double `2 ^ 64`
counts as the largest such number. -/
def toUnsigned? : Number → Option Nat
  | .integer n _ => if 0 ≤ n then some n.toNat else none
  | .double x =>
    if x.isIntegral && !x.isNegative && x.floor ≤ 0x10000000000000000 then
      some (min x.floor 0xFFFFFFFFFFFFFFFF)
    else none

end Number
end ServiceSchema.Json
