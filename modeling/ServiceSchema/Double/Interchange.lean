import ServiceSchema.Double

/-! # Interchange formats
The bits of half, single and double precision numbers. A finite number of a format is `mantissa * 2 ^ scale`
units of the format; its bits are the sign and `scale * 2 ^ (precision - 1) + mantissa`. -/
namespace ServiceSchema.Double

structure Format where
  precision : Nat
  /-- One unit of the format is `2 ^ -unit`. -/
  unit : Nat
  topScale : Nat
deriving DecidableEq

namespace Format

def half : Format := ⟨11, 24, 29⟩
def single : Format := ⟨24, 149, 253⟩
def double : Format := ⟨53, 1074, 2045⟩

/-- How many units of a double make one unit of the format, as a power of two. -/
def shift (f : Format) : Nat := 1074 - f.unit

/-- The weight of the sign bit. -/
def signWeight (f : Format) : Nat := (f.topScale + 3) * Nat.pow 2 (f.precision - 1)

end Format

/-- What the bits of a format can stand for. -/
inductive Wide where
  | finite (x : Double)
  | infinite (negative : Bool)
  | nan
deriving DecidableEq

/-- The bits of `x` in a format, if the format holds exactly this value. -/
def toBits? (f : Format) (x : Double) : Option Nat :=
  let w := x.units / Nat.pow 2 f.shift
  let scale := w.log2 + 1 - f.precision
  if x.units % Nat.pow 2 f.shift = 0 ∧ w % Nat.pow 2 scale = 0 ∧ scale ≤ f.topScale then
    some ((if x.negative then f.signWeight else 0) + scale * Nat.pow 2 (f.precision - 1)
      + w / Nat.pow 2 scale)
  else none

/-- The double of `n` units, if no digit is lost. -/
def ofUnits? (negative : Bool) (n : Nat) : Option Double :=
  let scale := n.log2 - 52
  ofParts? negative (n / Nat.pow 2 scale) scale

def ofBits (f : Format) (bits : Nat) : Wide :=
  let negative := f.signWeight ≤ bits
  let magnitude := bits % f.signWeight
  let lead := Nat.pow 2 (f.precision - 1)
  let scale := magnitude / lead - 1
  let mantissa := if magnitude < 2 * lead then magnitude else magnitude % lead + lead
  if scale ≤ f.topScale then
    match ofUnits? negative (mantissa * Nat.pow 2 (scale + f.shift)) with
    | some x => .finite x
    | none => .nan
  else if magnitude % lead = 0 then .infinite negative
  else .nan

end ServiceSchema.Double
