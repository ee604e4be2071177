import ServiceSchema.Json.Value

/-! # JSON pointers
The way from a document down to a value in it, by keys and indices. -/
namespace ServiceSchema.Json

inductive Step where
  | key (key : String)
  | index (i : Nat)
deriving DecidableEq

abbrev Pointer := List Step

namespace Step

/-- The tilde and the slash are escaped within a key. -/
def escape (c : Char) : List Char :=
  if c = '~' then ['~', '0'] else if c = '/' then ['~', '1'] else [c]

def render : Step → String
  | .key k => "/" ++ String.ofList (k.toList.flatMap escape)
  | .index i => "/" ++ toString i

def follow : Step → Value → Option Value
  | .key k, .object ms => Members.get? k ms
  | .index i, .array vs => vs[i]?
  | _, _ => none

end Step

namespace Pointer

def render (p : Pointer) : String := String.join (p.map Step.render)

/-- The value that a pointer leads to. -/
def resolve : Pointer → Value → Option Value
  | [], v => some v
  | s :: p, v => (s.follow v).bind (resolve p)

@[simp] theorem resolve_nil (v : Value) : resolve [] v = some v := rfl

theorem resolve_cons (s : Step) (p : Pointer) (v : Value) :
    resolve (s :: p) v = (s.follow v).bind (resolve p) := rfl

end Pointer
end ServiceSchema.Json
