import ServiceSchema.Text.Position

/-! # Places in a YAML text
The text that is still to be read, and where it begins. Lines and columns count from zero here and from one
in messages; a column counts characters. -/
namespace ServiceSchema.Yaml

structure Mark where
  line : Nat
  column : Nat
deriving DecidableEq

namespace Mark

def isStart (m : Mark) : Bool := m.line == 0 && m.column == 0

def message (m : Mark) : String := s!"line {m.line + 1} column {m.column + 1}"

/-- The place as it ends a message; the start of the text goes without saying. -/
def suffix (m : Mark) : String := if m.isStart then "" else s!" at {m.message}"

end Mark

/-- Why a text is no YAML, and where; and what was being read, and since where. -/
inductive Fault where
  | malformed (problem : String) (mark : Mark) (context : Option (String × Mark))
  | unknownAnchor (mark : Mark)
  | controlCharacter (offset : Nat)
deriving DecidableEq

def Fault.message : Fault → String
  | .malformed problem mark none => problem ++ mark.suffix
  | .malformed problem mark (some (context, since)) =>
    problem ++ mark.suffix ++ ", " ++ context ++ (if since = mark then "" else since.suffix)
  | .unknownAnchor mark => "unknown anchor" ++ mark.suffix
  | .controlCharacter offset =>
    "control characters are not allowed" ++ (if offset = 0 then "" else s!" at position {offset}")

/-! ## Characters -/

def isBlank (c : Char) : Bool := c = ' ' || c = '\t'

/-- Line feed, carriage return, next line, and the line and paragraph separators. -/
def isBreak (c : Char) : Bool :=
  c = '\n' || c = '\r' || c.toNat == 0x85 || c.toNat == 0x2028 || c.toNat == 0x2029

def isSpace (c : Char) : Bool := isBlank c || isBreak c

def isByteOrderMark (c : Char) : Bool := c.toNat == 0xFEFF

/-- What directives, anchors and tag handles are named with. -/
def isNameChar (c : Char) : Bool := c.isAlphanum || c = '_' || c = '-'

def hexValue? (c : Char) : Option Nat :=
  if '0' ≤ c ∧ c ≤ '9' then some (c.toNat - '0'.toNat)
  else if 'a' ≤ c ∧ c ≤ 'f' then some (c.toNat - 'a'.toNat + 10)
  else if 'A' ≤ c ∧ c ≤ 'F' then some (c.toNat - 'A'.toNat + 10)
  else none

/-- Does a word end here? -/
def wordEnds : List Char → Bool
  | [] => true
  | c :: _ => isSpace c

/-- A line break as one character: only the separators keep their own. -/
def takeBreak? : List Char → Option (Char × List Char)
  | '\r' :: '\n' :: cs => some ('\n', cs)
  | c :: cs =>
    if c.toNat == 0x2028 || c.toNat == 0x2029 then some (c, cs)
    else if isBreak c then some ('\n', cs)
    else none
  | [] => none

/-! ## Cursors -/

structure Cursor where
  rest : List Char
  mark : Mark
  /-- How many bytes of its line stand before the cursor. -/
  offset : Nat
deriving DecidableEq

namespace Cursor

def start (cs : List Char) : Cursor := ⟨cs, ⟨0, 0⟩, 0⟩

def column (c : Cursor) : Nat := c.mark.column

/-- Past `n` characters of the line. -/
def skip (c : Cursor) (n : Nat) : Cursor :=
  ⟨c.rest.drop n, ⟨c.mark.line, c.mark.column + n⟩, c.offset + Text.byteLength (c.rest.take n)⟩

/-- Past a line break, which `rest` follows. -/
def nextLine (c : Cursor) (rest : List Char) : Cursor := ⟨rest, ⟨c.mark.line + 1, 0⟩, 0⟩

def skipWhile (p : Char → Bool) (c : Cursor) : Cursor := c.skip (c.rest.takeWhile p).length

/-- Past what is left of a line with a comment. -/
def skipComment (c : Cursor) : Cursor :=
  if c.rest.head? = some '#' then c.skipWhile fun x => !isBreak x else c

/-- A byte order mark may begin a line. -/
def skipByteOrderMark (c : Cursor) : Cursor :=
  if c.column = 0 ∧ c.rest.head?.any isByteOrderMark then c.skip 1 else c

/-- Three equal characters alone at the start of a line end or begin a document. -/
def atIndicator (c : Cursor) : Bool :=
  c.column == 0 && (match c.rest with
    | '-' :: '-' :: '-' :: cs => wordEnds cs
    | '.' :: '.' :: '.' :: cs => wordEnds cs
    | _ => false)

end Cursor
end ServiceSchema.Yaml
