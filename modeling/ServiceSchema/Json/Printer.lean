import ServiceSchema.Json.Value
import ServiceSchema.Double.Shortest

/-! # Printing JSON
Two layouts of one text: compact without any blank, and pretty with one item a line and two blanks for each
level. Members are printed in the order they have, so a value with unsorted members serves as a record with
a fixed order of its keys. -/
namespace ServiceSchema

namespace Decimal

def digitChars (d : Decimal) : List Char := Nat.toDigits 10 d.digits

/-- The exponent of the leading digit. -/
def leading (d : Decimal) : Int := d.exponent + d.digitChars.length - 1

/-- Positional notation, with a zero after the point of an integer. -/
def plain (d : Decimal) : List Char :=
  let ds := d.digitChars
  if 0 ≤ d.exponent then ds ++ List.replicate d.exponent.toNat '0' ++ ['.', '0']
  else if 0 ≤ d.leading then
    ds.take (d.leading.toNat + 1) ++ '.' :: ds.drop (d.leading.toNat + 1)
  else '0' :: '.' :: List.replicate (-d.leading - 1).toNat '0' ++ ds

/-- Scientific notation: the exponent has a sign and no leading zero, a single digit has no point. -/
def scientific (d : Decimal) : List Char :=
  let mantissa := match d.digitChars with
    | [] => []
    | [c] => [c]
    | c :: cs => c :: '.' :: cs
  mantissa ++ 'e' :: (if d.leading < 0 then '-' else '+') :: Nat.toDigits 10 d.leading.natAbs

end Decimal

namespace Double

def signChars (x : Double) : List Char := if x.negative then ['-'] else []

/-- Positional from `0.00001` on and below `10 ^ 16`, scientific elsewhere. -/
def print (x : Double) : List Char :=
  let d := x.shortest .toEven
  x.signChars ++ (if x.isZero then ['0', '.', '0']
    else if -5 ≤ d.leading ∧ d.leading < 16 then d.plain else d.scientific)

/-- Positional whatever the size. -/
def printPlain (x : Double) : List Char := x.signChars ++ (x.shortest .upward).plain

end Double

namespace Json

def hexChar (n : Nat) : Char := Nat.digitChar (n % 16)

namespace Printer

/-- Only quotes, backslashes and control characters are escaped. -/
def escape (c : Char) : List Char :=
  if c = '"' then ['\\', '"']
  else if c = '\\' then ['\\', '\\']
  else if c = '\x08' then ['\\', 'b']
  else if c = '\t' then ['\\', 't']
  else if c = '\n' then ['\\', 'n']
  else if c = '\x0c' then ['\\', 'f']
  else if c = '\r' then ['\\', 'r']
  else if c < ' ' then ['\\', 'u', '0', '0', hexChar (c.toNat / 16), hexChar c.toNat]
  else [c]

def quoted (s : String) : List Char := '"' :: (s.toList.flatMap escape ++ ['"'])

def integer (n : Int) : List Char :=
  if n < 0 then '-' :: Nat.toDigits 10 n.natAbs else Nat.toDigits 10 n.natAbs

def number : Number → List Char
  | .integer n _ => integer n
  | .double x => x.print

def bool : Bool → List Char
  | true => ['t', 'r', 'u', 'e']
  | false => ['f', 'a', 'l', 's', 'e']

def null : List Char := ['n', 'u', 'l', 'l']

def compact : Value → List Char
  | .null => null
  | .bool b => bool b
  | .number n => number n
  | .string s => quoted s
  | .array [] => ['[', ']']
  | .array (v :: vs) => '[' :: (compact v ++ items vs ++ [']'])
  | .object [] => ['\x7b', '\x7d']
  | .object ((k, v) :: ms) => '\x7b' :: (quoted k ++ ':' :: compact v ++ members ms ++ ['\x7d'])
where
  items : List Value → List Char
  | [] => []
  | v :: vs => ',' :: (compact v ++ items vs)
  members : List (String × Value) → List Char
  | [] => []
  | (k, v) :: ms => ',' :: (quoted k ++ ':' :: compact v ++ members ms)

/-- A line feed and the indentation of a level. -/
def newline (level : Nat) : List Char := '\n' :: List.replicate (2 * level) ' '

def pretty (level : Nat) : Value → List Char
  | .null => null
  | .bool b => bool b
  | .number n => number n
  | .string s => quoted s
  | .array [] => ['[', ']']
  | .array (v :: vs) =>
    '[' :: (newline (level + 1) ++ pretty (level + 1) v ++ items (level + 1) vs ++ newline level ++ [']'])
  | .object [] => ['\x7b', '\x7d']
  | .object ((k, v) :: ms) =>
    '\x7b' :: (newline (level + 1) ++ quoted k ++ ':' :: ' ' :: pretty (level + 1) v ++ members (level + 1) ms
      ++ newline level ++ ['\x7d'])
where
  items (level : Nat) : List Value → List Char
  | [] => []
  | v :: vs => ',' :: (newline level ++ pretty level v ++ items level vs)
  members (level : Nat) : List (String × Value) → List Char
  | [] => []
  | (k, v) :: ms => ',' :: (newline level ++ quoted k ++ ':' :: ' ' :: pretty level v ++ members level ms)

end Printer

namespace Value

def compact (v : Value) : String := String.ofList (Printer.compact v)

def pretty (v : Value) : String := String.ofList (Printer.pretty 0 v)

end Value

end Json
end ServiceSchema
