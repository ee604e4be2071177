/-! # Scalars
The value types that travel as fixed-width bytes. -/
namespace ServiceSchema

inductive Scalar where
  | char
  | int8
  | uint8
  | int16
  | uint16
  | int32
  | uint32
  | float
  | double
deriving DecidableEq

namespace Scalar

def all : List Scalar := [.char, .int8, .uint8, .int16, .uint16, .int32, .uint32, .float, .double]

theorem mem_all (t : Scalar) : t ∈ all := by cases t <;> decide

def name : Scalar → String
  | .char => "char"
  | .int8 => "int8_t"
  | .uint8 => "uint8_t"
  | .int16 => "int16_t"
  | .uint16 => "uint16_t"
  | .int32 => "int32_t"
  | .uint32 => "uint32_t"
  | .float => "float"
  | .double => "double"

/-- Bytes on the wire. -/
def wireSize : Scalar → Nat
  | .char | .int8 | .uint8 => 1
  | .int16 | .uint16 => 2
  | .int32 | .uint32 | .float => 4
  | .double => 8

/-- The scalar that is spelled like this, letter by letter. -/
def ofName? (s : String) : Option Scalar := all.find? fun t => t.name == s

theorem ofName?_name (t : Scalar) : ofName? t.name = some t := by cases t <;> decide

theorem ofName?_eq_some {s : String} {t : Scalar} (h : ofName? s = some t) : s = t.name := by
  have := List.find?_some h
  exact (beq_iff_eq.1 this).symm

end Scalar
end ServiceSchema
