import ServiceSchema.FileTree.Fault

/-! # Paths
A path is a list of steps from the working directory or from the root. Slashes separate steps, several count
as one, and one at the end asks for a directory. -/
namespace ServiceSchema

inductive PathStep where
  | here
  | up
  | name (s : String)
deriving DecidableEq

structure Path where
  isAbsolute : Bool
  steps : List PathStep
  endsWithSlash : Bool
deriving DecidableEq

namespace Path

/-- The texts between slashes. -/
def split : List Char → List (List Char)
  | [] => [[]]
  | c :: cs =>
    if c = '/' then [] :: split cs
    else
      match split cs with
      | [] => [[c]]
      | s :: rest => (c :: s) :: rest

def step? : List Char → Option PathStep
  | [] => none
  | ['.'] => some .here
  | ['.', '.'] => some .up
  | cs => some (.name (String.ofList cs))

def byteLimit : Nat := 4096
def nameByteLimit : Nat := 255

def read (text : String) : Except FileFault Path :=
  let cs := text.toList
  if cs.contains '\x00' then .error .zeroByte
  else if cs = [] then .error .notFound
  else if byteLimit ≤ text.utf8ByteSize then .error .nameTooLong
  else .ok ⟨cs.head? = some '/', (split cs).filterMap step?, cs.getLast? = some '/'⟩

/-- The steps that lead somewhere else. -/
def moves (p : Path) : List PathStep := p.steps.filter (· ≠ .here)

/-- A name in a directory; an absolute name stands for itself. -/
def join (directory name : String) : String :=
  if name.toList.head? = some '/' ∨ directory = "" then name
  else if directory.toList.getLast? = some '/' then directory ++ name
  else directory ++ "/" ++ name

end Path
end ServiceSchema
