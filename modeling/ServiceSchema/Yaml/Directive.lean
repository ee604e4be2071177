import ServiceSchema.Yaml.Tag

/-! # Directives
What is said of a document before it starts, a line each: the version of its language, and what a handle of
its tags stands for. -/
namespace ServiceSchema.Yaml

inductive Directive where
  | version (major minor : Nat)
  | tag (handle : String) (octets : List UInt8)
deriving DecidableEq

namespace Directive

def digitLimit : Nat := 9

def versionNumber (fault : String → Cursor → Fault) (c : Cursor) : Except Fault (Nat × Cursor) :=
  let digits := c.rest.takeWhile Char.isDigit
  if digits = [] then .error (fault "did not find expected version number" c)
  else if digitLimit < digits.length then
    .error (fault "found extremely long version number" (c.skip digitLimit))
  else .ok (digits.foldl (fun n d => n * 10 + (d.toNat - '0'.toNat)) 0, c.skip digits.length)

/-- Two numbers with a point between them. -/
def readVersion (start : Mark) (c : Cursor) : Except Fault (Directive × Cursor) := do
  let fault (problem : String) (c : Cursor) : Fault :=
    .malformed problem c.mark (some ("while scanning a %YAML directive", start))
  let (major, c) ← versionNumber fault (c.skipWhile isBlank)
  if c.rest.head? ≠ some '.' then throw (fault "did not find expected digit or '.' character" c)
  let (minor, c) ← versionNumber fault (c.skip 1)
  return (.version major minor, c)

/-- The handle that a directive is about; the second exclamation mark is missing only if there is no name. -/
def readHandle (start : Mark) (c : Cursor) : Except Fault (String × Cursor) :=
  if c.rest.head? ≠ some '!' then
    .error (.malformed "did not find expected '!'" c.mark (some ("while scanning a tag directive", start)))
  else
    let name := TagName.leadingHandle c.rest
    let after := c.skip name.length
    if name.length = 1 ∧ after.rest.head?.any isNameChar then
      .error (.malformed "did not find expected '!'" (after.skipWhile isNameChar).mark
        (some ("while parsing a tag directive", start)))
    else .ok (String.ofList name, after)

/-- A handle, and the text that it stands for. -/
def readTag (start : Mark) (c : Cursor) : Except Fault (Directive × Cursor) := do
  let fault (problem : String) (c : Cursor) : Fault :=
    .malformed problem c.mark (some ("while scanning a %TAG directive", start))
  let uriFault (problem : String) (c : Cursor) : Fault :=
    .malformed problem c.mark (some ("while parsing a %TAG directive", start))
  let (handle, c) ← readHandle start (c.skipWhile isBlank)
  if !c.rest.head?.any isBlank then throw (fault "did not find expected whitespace" c)
  let (octets, c) ← TagUri.readSome uriFault true (c.skipWhile isBlank)
  if !wordEnds c.rest then throw (fault "did not find expected whitespace or line break" c)
  return (.tag handle (TagUri.upToZero octets), c)

/-- A directive and its line break. Only two names are known. -/
def read (c : Cursor) : Except Fault (Directive × Cursor) := do
  let start := c.mark
  let fault (problem : String) (c : Cursor) : Fault :=
    .malformed problem c.mark (some ("while scanning a directive", start))
  let name := (c.rest.drop 1).takeWhile isNameChar
  let c := c.skip (name.length + 1)
  if name = [] then throw (fault "could not find expected directive name" c)
  if !wordEnds c.rest then throw (fault "found unexpected non-alphabetical character" c)
  let (d, c) ←
    if String.ofList name = "YAML" then readVersion start c
    else if String.ofList name = "TAG" then readTag start c
    else throw (fault "found unknown directive name" c)
  let c := (c.skipWhile isBlank).skipComment
  match takeBreak? c.rest with
  | some (_, rest) => return (d, c.nextLine rest)
  | none =>
    if c.rest ≠ [] then throw (fault "did not find expected comment or line break" c)
    return (d, c)

end Directive
end ServiceSchema.Yaml
