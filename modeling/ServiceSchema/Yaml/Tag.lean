import ServiceSchema.Text.Utf8
import ServiceSchema.Yaml.Cursor

/-! # Tags
A tag says of which type a node is. It is written as a handle and a suffix, where a directive may tell what
the handle stands for, or verbatim within angle brackets. Octets may be written as hexadecimal escapes, all
the octets of a character together. -/
namespace ServiceSchema.Yaml

/-- What a tag says of a scalar: a type of the core schema, a type of the document's own, or another one. -/
inductive Tag where
  | bool
  | integer
  | float
  | null
  | ownType
  | other
deriving DecidableEq

namespace Tag

def coreOctets (name : String) : List UInt8 := Utf8.encode ("tag:yaml.org,2002:" ++ name).toList

def ofOctets (octets : List UInt8) : Tag :=
  if octets = coreOctets "bool" then .bool
  else if octets = coreOctets "int" then .integer
  else if octets = coreOctets "float" then .float
  else if octets = coreOctets "null" then .null
  else if octets.head? = some 0x21 then .ownType
  else .other

end Tag

/-! ## Escaped octets -/

namespace TagUri

def isChar (c : Char) : Bool := c.isAlphanum || "-_;/?:@&=+$.!~*'()".toList.contains c

/-- An octet as a percent sign and two digits. -/
def octet? : List Char → Option UInt8
  | '%' :: a :: b :: _ =>
    (hexValue? a).bind fun m => (hexValue? b).map fun n => UInt8.ofNat (m * 16 + n)
  | _ => none

/-- How many octets belong to a character, by the first of them. -/
def sequenceLength? (b : UInt8) : Option Nat :=
  if b < 0x80 then some 1
  else if b < 0xC0 then none
  else if b < 0xE0 then some 2
  else if b < 0xF0 then some 3
  else if b < 0xF8 then some 4
  else none

/-- The octets of a character after the first one. -/
def trailing (fault : String → Cursor → Fault) : Nat → Cursor → Except Fault (List UInt8 × Cursor)
  | 0, c => .ok ([], c)
  | n + 1, c =>
    match octet? c.rest with
    | none => .error (fault "did not find URI escaped octet" c)
    | some b =>
      if 0x80 ≤ b ∧ b < 0xC0 then (trailing fault n (c.skip 3)).map fun r => (b :: r.1, r.2)
      else .error (fault "found an incorrect trailing UTF-8 octet" c)

/-- A character in escaped octets. -/
def escaped (fault : String → Cursor → Fault) (c : Cursor) : Except Fault (List UInt8 × Cursor) :=
  match octet? c.rest with
  | none => .error (fault "did not find URI escaped octet" c)
  | some b =>
    match sequenceLength? b with
    | none => .error (fault "found an incorrect leading UTF-8 octet" c)
    | some n => (trailing fault (n - 1) (c.skip 3)).map fun r => (b :: r.1, r.2)

/-- At most `n` characters of a tag. Commas and square brackets are part of a verbatim one. -/
def readWithin (fault : String → Cursor → Fault) (verbatim : Bool) :
    Nat → Cursor → Except Fault (List UInt8 × Cursor)
  | 0, c => .ok ([], c)
  | n + 1, c =>
    match c.rest with
    | [] => .ok ([], c)
    | x :: _ =>
      if x = '%' then do
        let (octets, c) ← escaped fault c
        let (more, c) ← readWithin fault verbatim n c
        return (octets ++ more, c)
      else if isChar x || (verbatim && ",[]".toList.contains x) then
        (readWithin fault verbatim n (c.skip 1)).map fun r => (UInt8.ofNat x.toNat :: r.1, r.2)
      else .ok ([], c)

def read (fault : String → Cursor → Fault) (verbatim : Bool) (c : Cursor) :
    Except Fault (List UInt8 × Cursor) :=
  readWithin fault verbatim c.rest.length c

/-- As `read`, but nothing is not enough. -/
def readSome (fault : String → Cursor → Fault) (verbatim : Bool) (c : Cursor) :
    Except Fault (List UInt8 × Cursor) := do
  let (octets, after) ← read fault verbatim c
  if octets = [] then throw (fault "did not find expected tag URI" after)
  return (octets, after)

/-- A zero octet ends a tag. -/
def upToZero (octets : List UInt8) : List UInt8 := octets.takeWhile (· ≠ 0)

end TagUri

/-! ## Names of tags -/

/-- A tag as it is written. The handle of a verbatim tag is empty. -/
structure TagName where
  handle : String
  suffix : List UInt8
deriving DecidableEq

namespace TagName

/-- An exclamation mark, and if another one follows then also what is between the two. -/
def leadingHandle : List Char → List Char
  | [] => []
  | c :: cs =>
    match cs.dropWhile isNameChar with
    | '!' :: _ => c :: (cs.takeWhile isNameChar ++ ['!'])
    | _ => [c]

/-- A tag that begins at the cursor. A lone exclamation mark stands for itself. -/
def read (c : Cursor) : Except Fault (TagName × Cursor) := do
  let start := c.mark
  let fault (problem : String) (c : Cursor) : Fault :=
    .malformed problem c.mark (some ("while parsing a tag", start))
  match c.rest.drop 1 with
  | '<' :: _ =>
    let (octets, after) ← TagUri.readSome fault true (c.skip 2)
    if after.rest.head? ≠ some '>' then
      throw (.malformed "did not find the expected '>'" after.mark (some ("while scanning a tag", start)))
    return (⟨"", TagUri.upToZero octets⟩, after.skip 1)
  | _ =>
    let name := leadingHandle c.rest
    if 1 < name.length then
      let (octets, after) ← TagUri.readSome fault false (c.skip name.length)
      return (⟨String.ofList name, TagUri.upToZero octets⟩, after)
    else
      let (octets, after) ← TagUri.read fault false (c.skip 1)
      let suffix := TagUri.upToZero octets
      return (if suffix = [] then ⟨"", [0x21]⟩ else ⟨"!", suffix⟩, after)

end TagName

/-! ## Handles -/

/-- What handles stand for. -/
abbrev Handles := List (String × List UInt8)

def Handles.standard : Handles := [("!", [0x21]), ("!!", Tag.coreOctets "")]

def TagName.resolve? (handles : Handles) (t : TagName) : Option Tag :=
  if t.handle = "" then some (.ofOctets t.suffix)
  else (handles.lookup t.handle).map fun octets => .ofOctets (octets ++ t.suffix)

end ServiceSchema.Yaml
