import ServiceSchema.Double.Interchange
import ServiceSchema.Yaml.Outline

/-! # The types of plain scalars
What an untagged plain scalar stands for: null, a truth value, an integer in one of four bases, a floating
point number, or its text. A number with a leading zero is text. -/
namespace ServiceSchema.Yaml

inductive Typed where
  | null
  | bool (b : Bool)
  | integer (n : Int)
  | float (x : Double.Wide)
  | text (s : String)
  /-- A tag asks for a type that the text does not have. -/
  | mistagged (s : String) (wanted : String)
deriving DecidableEq

namespace CoreSchema

def isNull (s : String) : Bool := s ∈ ["null", "Null", "NULL", "~"]

def bool? (s : String) : Option Bool :=
  if s ∈ ["true", "True", "TRUE"] then some true
  else if s ∈ ["false", "False", "FALSE"] then some false
  else none

/-! ## Integers -/

/-- The number that digits of a base spell; there must be one at least. -/
def digits? (base : Nat) (cs : List Char) : Option Nat := do
  let ds ← cs.mapM fun c => (hexValue? c).filter (· < base)
  if ds = [] then none else some (ds.foldl (fun n d => n * base + d) 0)

def dropSign : List Char → List Char
  | '+' :: cs => cs
  | '-' :: cs => cs
  | cs => cs

def hasLeadingZero (cs : List Char) : Bool :=
  match dropSign cs with
  | '0' :: d :: ds => (d :: ds).all Char.isDigit
  | _ => false

/-- A number after its sign; `cs` is the whole of it. -/
def magnitude? (cs : List Char) : List Char → Option Nat
  | '0' :: 'x' :: ds => digits? 16 ds
  | '0' :: 'o' :: ds => digits? 8 ds
  | '0' :: 'b' :: ds => digits? 2 ds
  | ds => if hasLeadingZero cs then none else digits? 10 ds

/-- Integers have at most 128 bits. -/
def integer? (cs : List Char) : Option Int :=
  match cs with
  | '-' :: ds => ((magnitude? cs ds).filter (· ≤ Nat.pow 2 127)).map fun n => -(n : Int)
  | '+' :: ds | ds => ((magnitude? cs ds).filter (· < Nat.pow 2 128)).map fun n => (n : Int)

/-! ## Floating point numbers -/

/-- The double nearest to `digits * 10 ^ exponent`, if there is one. -/
def nearestDecimal (negative : Bool) (digits : Nat) (exponent : Int) : Option Double :=
  let leading := (Nat.toDigits 10 digits).length + exponent
  if digits = 0 ∨ leading < -400 then some (Double.zero negative)
  else if 400 < leading then none
  else
    Double.nearest negative (digits * Double.one * Nat.pow 10 exponent.toNat)
      (Nat.pow 10 (-exponent).toNat)

/-- An exponent: its mark, a sign, and digits. -/
def exponent? : List Char → Option Int
  | [] => some 0
  | e :: cs =>
    if e = 'e' ∨ e = 'E' then
      match cs with
      | '-' :: ds => (digits? 10 ds).map fun n => -(n : Int)
      | '+' :: ds | ds => (digits? 10 ds).map fun n => (n : Int)
    else none

/-- A decimal with digits before or after its point. -/
def decimal? (negative : Bool) (cs : List Char) : Option Double := do
  let whole := cs.takeWhile Char.isDigit
  let rest := cs.dropWhile Char.isDigit
  let fraction := match rest with
    | '.' :: ds => ds.takeWhile Char.isDigit
    | _ => []
  let rest := match rest with
    | '.' :: ds => ds.dropWhile Char.isDigit
    | _ => rest
  let digits ← digits? 10 (whole ++ fraction)
  let exponent ← exponent? rest
  nearestDecimal negative digits (exponent - fraction.length)

def float? (s : String) : Option Double.Wide :=
  if s ∈ [".inf", ".Inf", ".INF", "+.inf", "+.Inf", "+.INF"] then some (.infinite false)
  else if s ∈ ["-.inf", "-.Inf", "-.INF"] then some (.infinite true)
  else if s ∈ [".nan", ".NaN", ".NAN"] then some .nan
  else
    match s.toList with
    | '-' :: cs => (decimal? true cs).map .finite
    | '+' :: cs | cs => (decimal? false cs).map .finite

/-! ## Scalars -/

def plain (s : String) : Typed :=
  if s = "" ∨ isNull s then .null
  else
    match bool? s, integer? s.toList with
    | some b, _ => .bool b
    | none, some n => .integer n
    | none, none =>
      match (if hasLeadingZero s.toList then none else float? s) with
      | some x => .float x
      | none => .text s

/-- A tag of the core schema overrides what the text looks like; a tag from elsewhere makes it text. -/
def tagged (s : String) (isPlain : Bool) : Option Tag → Typed
  | none | some .ownType => if isPlain then plain s else .text s
  | some .bool => ((bool? s).map .bool).getD (.mistagged s "a boolean")
  | some .integer => ((integer? s.toList).map .integer).getD (.mistagged s "an integer")
  | some .float => ((float? s).map .float).getD (.mistagged s "a float")
  | some .null => if isNull s then .null else .mistagged s "null"
  | some .other => .text s

end CoreSchema
end ServiceSchema.Yaml
