import ServiceSchema.Profile
import ServiceSchema.Text.Blank
import ServiceSchema.Text.Quoted
import ServiceSchema.Json.Printer
import ServiceSchema.Yaml.Alias
import ServiceSchema.Yaml.CoreSchema

/-! # Reading profiles
A profile is written as a YAML mapping of its keys to scalars, every scalar standing for its text. Keys that
are left out keep their standard value; unknown and repeated keys are refused. The first fault in the order
of the text is reported. -/
namespace ServiceSchema.Profile
open ServiceSchema.Yaml

/-- What stands in place of something else. -/
inductive Found where
  | sequence
  | mapping
  | scalar (value : Typed)
deriving DecidableEq

/-- Why a text is no profile. -/
inductive ReadFault where
  | yaml (fault : Yaml.Fault)
  | notMapping (found : Found) (mark : Mark)
  | badKey (found : Found) (mark : Mark)
  | unknownKey (name : String) (mark : Mark)
  | repeatedKey (key : Key) (start : Mark)
  /-- The value of a key that is written as `path`. -/
  | badValue (path : String) (found : Found) (mark : Mark)
  | moreDocuments
  | flawed (flaw : Flaw)
deriving DecidableEq

/-! ## Reading -/

/-- The text of a node, unless it is a collection. -/
def textOf (n : Node) : Except Found String :=
  match n.content with
  | .scalar text _ _ => .ok text
  | .alias name => .ok name
  | .sequence => .error .sequence
  | .mapping => .error .mapping

def readKey (start : Mark) (given : List (Key × String)) (m : Met) : Except ReadFault Key :=
  match textOf m.node with
  | .error found => .error (.badKey found m.node.mark)
  | .ok name =>
    match Key.ofName? name with
    | none => .error (.unknownKey name m.node.mark)
    | some k => if given.any (·.1 = k) then .error (.repeatedKey k start) else .ok k

/-- A key that is reached through an alias has no path of its own. -/
def readValue (key value : Met) : Except ReadFault String :=
  match textOf value.node with
  | .ok text => .ok text
  | .error found =>
    let path := if key.isAlias then "?" else (textOf key.node).toOption.getD "?"
    .error (.badValue path found value.node.mark)

/-- What the members end with counts once they are all good. -/
def finish (given : List (Key × String)) : Ending → Except ReadFault (List (Key × String))
  | .fault f => .error (.yaml f)
  | .complete true => .error .moreDocuments
  | .complete false => .ok given

/-- Keys and values in turn; the latest is first in the result. -/
def readMembers (start : Mark) (ending : Ending) :
    List (Key × String) → List Met → Except ReadFault (List (Key × String))
  | given, [] => finish given ending
  | given, [key] => do
    let _ ← readKey start given key
    finish given ending
  | given, key :: value :: rest => do
    let k ← readKey start given key
    let text ← readValue key value
    readMembers start ending ((k, text) :: given) rest

/-- A document without content stands for a mapping without members. -/
def readOutline (o : Outline) : Except ReadFault (List (Key × String)) :=
  match o.resolved with
  | ([], ending) => finish [] ending
  | (root :: members, ending) =>
    let mark := root.node.mark
    match root.node.content with
    | .mapping => readMembers mark ending [] members
    | .sequence => .error (.notMapping .sequence mark)
    | .scalar text isPlain tag =>
      if text = "" ∧ isPlain then finish [] ending
      else .error (.notMapping (.scalar (CoreSchema.tagged text isPlain tag)) mark)
    | .alias _ => finish [] ending

def assemble (given : List (Key × String)) : Profile := given.foldr (fun m p => p.set m.1 m.2) standard

/-- Reads a profile; one that is not sound is refused. -/
def read (text : String) : Except ReadFault Profile := do
  let given ← if Text.isBlank text.toList then .ok []
    else readOutline (Outline.document (Yaml.scan text.toList))
  let profile := assemble given
  match profile.flaw? with
  | some flaw => throw (.flawed flaw)
  | none => return profile

/-! ## Messages -/

def describe : Typed → String
  | .null => "unit value"
  | .bool b => s!"boolean `{b}`"
  | .integer n =>
    if n < -0x8000000000000000 then s!"integer `{n}` as i128"
    else if 0x10000000000000000 ≤ n then s!"integer `{n}` as u128"
    else s!"integer `{n}`"
  | .float (.finite x) => s!"floating point `{String.ofList x.printPlain}`"
  | .float (.infinite true) => "floating point `-inf`"
  | .float (.infinite false) => "floating point `inf`"
  | .float .nan => "floating point `NaN`"
  | .text s | .mistagged s _ => s!"string {Text.quoted s}"

def Found.mismatch (wanted : String) : Found → String
  | .sequence => s!"invalid type: sequence, expected {wanted}"
  | .mapping => s!"invalid type: map, expected {wanted}"
  | .scalar (.mistagged s tagged) => s!"invalid value: {describe (.mistagged s tagged)}, expected {tagged}"
  | .scalar t => s!"invalid type: {describe t}, expected {wanted}"

def expectedKeys : String := ", ".intercalate (Key.all.map fun k => s!"`{k.name}`")

def ReadFault.message : ReadFault → String
  | .yaml f => "invalid YAML: " ++ f.message
  | .notMapping found mark => "invalid YAML: " ++ found.mismatch "struct CodegenConfig" ++ mark.suffix
  | .badKey found mark => "invalid YAML: " ++ found.mismatch "field identifier" ++ mark.suffix
  | .unknownKey name mark =>
    s!"invalid YAML: unknown field `{name}`, expected one of {expectedKeys}{mark.suffix}"
  | .repeatedKey k start => s!"invalid YAML: duplicate field `{k.name}`{start.suffix}"
  | .badValue path found mark =>
    "invalid YAML: " ++ path ++ ": " ++ found.mismatch "a string" ++ mark.suffix
  | .moreDocuments =>
    "invalid YAML: deserializing from YAML containing more than one document is not supported"
  | .flawed flaw => flaw.message

end ServiceSchema.Profile
