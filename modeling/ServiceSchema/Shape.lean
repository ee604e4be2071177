import ServiceSchema.Json.Pointer
import ServiceSchema.Json.Printer

/-! # The shape of a service schema
Rules about the structure of a document: which keys must be there and of which kind the values are. Keys that
no rule names are free. All violations of a rule are listed in a fixed order, and the first one is reported. -/
namespace ServiceSchema.Shape
open ServiceSchema.Json

inductive Kind where
  | array
  | integer
  | null
  | object
  | string
deriving DecidableEq

def Kind.name : Kind → String
  | .array => "array"
  | .integer => "integer"
  | .null => "null"
  | .object => "object"
  | .string => "string"

/-- An integral double is an integer too. -/
def Kind.admits : Kind → Value → Bool
  | .array, .array _ => true
  | .integer, .number n => n.isIntegral
  | .null, .null => true
  | .object, .object _ => true
  | .string, .string _ => true
  | _, _ => false

inductive Rule where
  /-- A value of one of these kinds. -/
  | kinds (kinds : List Kind)
  /-- An integer from zero to a bound. -/
  | integer (bound : Nat)
  /-- A list of values that keep a rule, or a value of another of these kinds. -/
  | list (item : Rule) (kinds : List Kind)
  /-- An object with these keys at least; the properties it has keep their rules. -/
  | object (properties : List (String × Rule)) (required : List String)

inductive Cause where
  | notOfKind (kinds : List Kind)
  | below (bound : Nat)
  | above (bound : Nat)
  | missing (key : String)
deriving DecidableEq

/-- A value that breaks a rule, and the way to it. -/
structure Violation where
  path : Pointer
  value : Value
  cause : Cause
deriving DecidableEq

def Violation.within (s : Step) (v : Violation) : Violation := { v with path := s :: v.path }

def kindViolations (kinds : List Kind) (v : Value) : List Violation :=
  if kinds.any fun k => k.admits v then [] else [⟨[], v, .notOfKind kinds⟩]

/-- Bounds matter to numbers only. -/
def boundViolations (bound : Nat) : Value → List Violation
  | .number n =>
    (if n.isAbove bound then [⟨[], .number n, .above bound⟩] else [])
      ++ (if n.isBelow 0 then [⟨[], .number n, .below 0⟩] else [])
  | _ => []

def requiredViolations (required : List String) : Value → List Violation
  | .object ms =>
    (required.filter fun k => (Members.get? k ms).isNone).map fun k => ⟨[], .object ms, .missing k⟩
  | _ => []

/-- Violations of a rule by the items of a list, from position `i` on. -/
def itemViolations (check : Value → List Violation) : Nat → List Value → List Violation
  | _, [] => []
  | i, v :: vs => (check v).map (.within (.index i)) ++ itemViolations check (i + 1) vs

def Rule.violations : Rule → Value → List Violation
  | .kinds ks, v => kindViolations ks v
  | .integer bound, v => boundViolations bound v ++ kindViolations [.integer] v
  | .list item ks, v =>
    (match v with
      | .array vs => itemViolations item.violations 0 vs
      | _ => []) ++ kindViolations ks v
  | .object properties required, v =>
    (match v with
      | .object ms => propertyViolations properties ms
      | _ => []) ++ requiredViolations required v ++ kindViolations [.object] v
where
  propertyViolations : List (String × Rule) → Members → List Violation
  | [], _ => []
  | (k, r) :: rest, ms =>
    (match Members.get? k ms with
      | some v => (r.violations v).map (.within (.key k))
      | none => []) ++ propertyViolations rest ms

def idBound : Nat := 65535
def versionBound : Nat := 4294967295

/-- One entry of a category. -/
def entry : Rule :=
  .object [
    ("encoding", .kinds [.null, .string]),
    ("id", .integer idBound),
    ("name", .kinds [.string]),
    ("type", .kinds [.string])]
    ["id", "name", "type"]

def service : Rule :=
  .object [
    ("inputs", .list entry [.array]),
    ("outputs", .list entry [.array]),
    ("registers", .list entry [.array, .null]),
    ("type", .kinds [.string]),
    ("version", .integer versionBound)]
    ["type", "version", "inputs", "outputs"]

/-- The first violation of the service shape. -/
def firstViolation (document : Value) : Option Violation := (service.violations document).head?

namespace Violation

/-- Where the violation is: a pointer, or the word for the whole document. -/
def location (v : Violation) : String := if v.path = [] then "(root)" else Pointer.render v.path

def quotedKinds (kinds : List Kind) : String :=
  ", ".intercalate (kinds.map fun k => "\"" ++ k.name ++ "\"")

def message (v : Violation) : String :=
  match v.cause with
  | .notOfKind [k] => s!"{v.value.compact} is not of type {quotedKinds [k]}"
  | .notOfKind kinds => s!"{v.value.compact} is not of types {quotedKinds kinds}"
  | .below bound => s!"{v.value.compact} is less than the minimum of {bound}"
  | .above bound => s!"{v.value.compact} is greater than the maximum of {bound}"
  | .missing key => s!"{(Value.string key).compact} is a required property"

end Violation
end ServiceSchema.Shape
