import ServiceSchema.Yaml.Directive
import ServiceSchema.Yaml.Scalar

/-! # YAML tokens
The text as indicators and scalars, with the block structure that follows from indentation made explicit. A
key is known as such only when its colon comes: the place of the latest token that may turn out to be a key
is remembered, and the key indicator is put there afterwards. -/
namespace ServiceSchema.Yaml

inductive Lexeme where
  | directive (d : Directive)
  | documentStart
  | documentEnd
  | blockSequenceStart
  | blockMappingStart
  | blockEnd
  | flowSequenceStart
  | flowSequenceEnd
  | flowMappingStart
  | flowMappingEnd
  | blockEntry
  | flowEntry
  | key
  | value
  | alias (name : String)
  | anchor (name : String)
  | tag (name : TagName)
  | scalar (text : String) (isPlain : Bool)
  | streamEnd
deriving DecidableEq

structure Token where
  lexeme : Lexeme
  mark : Mark
deriving DecidableEq

/-- The tokens of a text up to its first fault. -/
structure TokenStream where
  tokens : List Token
  fault : Option Fault
deriving DecidableEq

/-- A token that may turn out to be a key: how many tokens stand before it, and where it begins. A required
one is the first thing at the indentation of its block. -/
structure Candidate where
  before : Nat
  required : Bool
  mark : Mark
  offset : Nat
deriving DecidableEq

structure Scanner where
  cursor : Cursor
  /-- The tokens so far, the latest first. -/
  tokens : List Token
  /-- The candidates of the flow collections that are open, innermost first, and of the block around them. -/
  candidates : List (Option Candidate)
  /-- The columns of the open block collections, innermost first. -/
  indents : List Nat
  /-- May a key begin here? -/
  keyAllowed : Bool
deriving DecidableEq

namespace Scanner

def start (cs : List Char) : Scanner := ⟨Cursor.start cs, [], [none], [], true⟩

def inFlow (s : Scanner) : Bool := 1 < s.candidates.length

def mark (s : Scanner) : Mark := s.cursor.mark

/-- The least column of what belongs to the innermost block. -/
def floor (s : Scanner) : Nat := s.indents.head?.elim 0 (· + 1)

def push (s : Scanner) (lexeme : Lexeme) (mark : Mark) : Scanner :=
  { s with tokens := ⟨lexeme, mark⟩ :: s.tokens }

/-- Puts a token where `before` tokens stand before it. -/
def insert (s : Scanner) (before : Nat) (t : Token) : Scanner :=
  let later := s.tokens.length - before
  { s with tokens := s.tokens.take later ++ t :: s.tokens.drop later }

/-- The token at the cursor, of so many characters. -/
def take (s : Scanner) (lexeme : Lexeme) (length : Nat) : Scanner :=
  { s.push lexeme s.mark with cursor := s.cursor.skip length }

def allowKey (s : Scanner) (allowed : Bool) : Scanner := { s with keyAllowed := allowed }

def missingColon (s : Scanner) (c : Candidate) : Fault :=
  .malformed "could not find expected ':'" s.mark (some ("while scanning a simple key", c.mark))

/-- The innermost candidate is no key. -/
def dropCandidate (s : Scanner) : Except Fault Scanner :=
  match s.candidates with
  | some c :: rest =>
    if c.required then .error (s.missingColon c) else .ok { s with candidates := none :: rest }
  | _ => .ok s

/-- The next token may be a key. -/
def saveCandidate (s : Scanner) : Except Fault Scanner :=
  if s.keyAllowed then do
    let required := !s.inFlow && s.indents.head? = some s.cursor.column
    let candidate : Candidate := ⟨s.tokens.length, required, s.mark, s.cursor.offset⟩
    let s ← s.dropCandidate
    return { s with candidates := some candidate :: s.candidates.drop 1 }
  else .ok s

/-- A candidate must end on its line, and within 1024 bytes. -/
def isStale (s : Scanner) (c : Candidate) : Bool :=
  c.mark.line < s.mark.line || c.offset + 1024 < s.cursor.offset

def dropStale (s : Scanner) : Except Fault Scanner := do
  let candidates ← s.candidates.mapM fun
    | some c =>
      if s.isStale c then
        if c.required then throw (s.missingColon c) else return none
      else return some c
    | none => return none
  return { s with candidates }

/-- Opens a block collection at a column beyond the innermost one. -/
def openBlock (s : Scanner) (column before : Nat) (lexeme : Lexeme) (mark : Mark) : Scanner :=
  if !s.inFlow && s.floor ≤ column then
    { s.insert before ⟨lexeme, mark⟩ with indents := column :: s.indents }
  else s

/-- Closes the block collections beyond a column; all of them if there is none. -/
def closeBlocks (s : Scanner) (column : Option Nat) : Scanner :=
  if s.inFlow then s
  else
    let open_ (i : Nat) : Bool := column.all (· < i)
    let closed := s.indents.takeWhile open_
    { s with
      tokens := closed.map (fun _ => ⟨.blockEnd, s.mark⟩) ++ s.tokens
      indents := s.indents.dropWhile open_ }

/-! ## Blanks and comments -/

/-- Skips byte order marks, blanks, comments and line breaks. A tab may not indent where a key may begin. -/
def skipGapWithin : Nat → Scanner → Scanner
  | 0, s => s
  | n + 1, s =>
    let blank (c : Char) : Bool := c = ' ' || ((s.inFlow || !s.keyAllowed) && c = '\t')
    let c := (s.cursor.skipByteOrderMark.skipWhile blank).skipComment
    match takeBreak? c.rest with
    | some (_, rest) =>
      skipGapWithin n { s with cursor := c.nextLine rest, keyAllowed := s.keyAllowed || !s.inFlow }
    | none => { s with cursor := c }

def skipGap (s : Scanner) : Scanner := skipGapWithin (s.cursor.rest.length + 1) s

/-! ## Tokens -/

def documentIndicator (s : Scanner) (lexeme : Lexeme) : Except Fault Scanner := do
  let s ← (s.closeBlocks none).dropCandidate
  return (s.allowKey false).take lexeme 3

def directive (s : Scanner) : Except Fault Scanner := do
  let s ← (s.closeBlocks none).dropCandidate
  let (d, after) ← Directive.read s.cursor
  return { (s.allowKey false).push (.directive d) s.mark with cursor := after }

def openFlow (s : Scanner) (lexeme : Lexeme) : Except Fault Scanner := do
  let s ← s.saveCandidate
  return ({ s with candidates := none :: s.candidates }.allowKey true).take lexeme 1

def closeFlow (s : Scanner) (lexeme : Lexeme) : Except Fault Scanner := do
  let s ← s.dropCandidate
  let s := if s.inFlow then { s with candidates := s.candidates.drop 1 } else s
  return (s.allowKey false).take lexeme 1

def flowEntry (s : Scanner) : Except Fault Scanner := do
  return ((← s.dropCandidate).allowKey true).take .flowEntry 1

def notAllowed (s : Scanner) (what : String) : Fault :=
  .malformed (what ++ " are not allowed in this context") s.mark none

def blockEntry (s : Scanner) : Except Fault Scanner := do
  if !s.inFlow && !s.keyAllowed then throw (s.notAllowed "block sequence entries")
  let s := s.openBlock s.cursor.column s.tokens.length .blockSequenceStart s.mark
  return ((← s.dropCandidate).allowKey true).take .blockEntry 1

def explicitKey (s : Scanner) : Except Fault Scanner := do
  if !s.inFlow && !s.keyAllowed then throw (s.notAllowed "mapping keys")
  let s := s.openBlock s.cursor.column s.tokens.length .blockMappingStart s.mark
  let s ← s.dropCandidate
  return (s.allowKey (!s.inFlow)).take .key 1

def value (s : Scanner) : Except Fault Scanner :=
  match s.candidates with
  | some c :: rest =>
    let s := { s.insert c.before ⟨.key, c.mark⟩ with candidates := none :: rest }
    let s := s.openBlock c.mark.column c.before .blockMappingStart c.mark
    .ok ((s.allowKey false).take .value 1)
  | _ =>
    if !s.inFlow && !s.keyAllowed then .error (s.notAllowed "mapping values")
    else
      let s := s.openBlock s.cursor.column s.tokens.length .blockMappingStart s.mark
      .ok ((s.allowKey (!s.inFlow)).take .value 1)

def endsName : List Char → Bool
  | [] => true
  | c :: _ => isSpace c || "?:,]\x7d%@\x60".toList.contains c

/-- An anchor or an alias. -/
def reference (s : Scanner) (what : String) (lexeme : String → Lexeme) : Except Fault Scanner := do
  let s := (← s.saveCandidate).allowKey false
  let name := (s.cursor.rest.drop 1).takeWhile isNameChar
  let after := s.cursor.skip (name.length + 1)
  if name = [] || !endsName after.rest then
    throw (.malformed "did not find expected alphabetic or numeric character" after.mark
      (some ("while scanning " ++ what, s.mark)))
  return s.take (lexeme (String.ofList name)) (name.length + 1)

def tag (s : Scanner) : Except Fault Scanner := do
  let s := (← s.saveCandidate).allowKey false
  let (name, after) ← TagName.read s.cursor
  if !(wordEnds after.rest || (s.inFlow && after.rest.head? = some ',')) then
    throw (.malformed "did not find expected whitespace or line break" after.mark
      (some ("while scanning a tag", s.mark)))
  return { s.push (.tag name) s.mark with cursor := after }

def scalarToken (s : Scanner) (text : List Char) (isPlain : Bool) (after : Cursor) : Scanner :=
  { s.push (.scalar (String.ofList text) isPlain) s.mark with cursor := after }

def blockScalar (s : Scanner) (literal : Bool) : Except Fault Scanner := do
  let s := (← s.dropCandidate).allowKey true
  let (text, after) ← Scalar.block literal s.floor s.cursor
  return s.scalarToken text false after

def quotedScalar (s : Scanner) (double : Bool) : Except Fault Scanner := do
  let s := (← s.saveCandidate).allowKey false
  let (text, after) ← Scalar.quoted double s.cursor
  return s.scalarToken text false after

def plainScalar (s : Scanner) : Except Fault Scanner := do
  let s := (← s.saveCandidate).allowKey false
  let (text, broken, after) ← Scalar.plain s.inFlow s.floor s.cursor
  return (s.allowKey broken).scalarToken text true after

/-- The end of the text begins a line of its own. -/
def finish (s : Scanner) : Except Fault Scanner := do
  let s := if s.cursor.column = 0 then s
    else { s with cursor := ⟨[], ⟨s.mark.line + 1, 0⟩, 0⟩ }
  let s ← (s.closeBlocks none).dropCandidate
  return (s.allowKey false).push .streamEnd s.mark

/-- May a plain scalar begin with this character? -/
def beginsPlain (flow : Bool) (c : Char) (cs : List Char) : Bool :=
  !(isSpace c || "-?:,[]\x7b\x7d#&*!|>'\"%@\x60".toList.contains c)
    || (c = '-' && !(cs.head?.any isBlank))
    || (!flow && (c = '?' || c = ':') && !wordEnds cs)

/-- The next token, after the blanks before it. -/
def next (s : Scanner) (c : Char) (cs : List Char) : Except Fault Scanner :=
  let atStart := s.cursor.column = 0
  if atStart && c = '%' then s.directive
  else if s.cursor.atIndicator then s.documentIndicator (if c = '-' then .documentStart else .documentEnd)
  else if c = '[' then s.openFlow .flowSequenceStart
  else if c = '\x7b' then s.openFlow .flowMappingStart
  else if c = ']' then s.closeFlow .flowSequenceEnd
  else if c = '\x7d' then s.closeFlow .flowMappingEnd
  else if c = ',' then s.flowEntry
  else if c = '-' && wordEnds cs then s.blockEntry
  else if c = '?' && (s.inFlow || wordEnds cs) then s.explicitKey
  else if c = ':' && (s.inFlow || wordEnds cs) then s.value
  else if c = '*' then s.reference "an alias" .alias
  else if c = '&' then s.reference "an anchor" .anchor
  else if c = '!' then s.tag
  else if c = '|' && !s.inFlow then s.blockScalar true
  else if c = '>' && !s.inFlow then s.blockScalar false
  else if c = '\'' then s.quotedScalar false
  else if c = '"' then s.quotedScalar true
  else if beginsPlain s.inFlow c cs then s.plainScalar
  else .error (.malformed "found character that cannot start any token" s.mark
    (some ("while scanning for the next token", s.mark)))

/-- The tokens before the first that may still turn out to be a key. -/
def settled (s : Scanner) : List Token :=
  let count := (s.candidates.filterMap id).foldl (fun n c => min n c.before) s.tokens.length
  s.tokens.reverse.take count

/-- One token more, and the blocks that end before it; at the end of the text what remains to be closed. -/
def step (s : Scanner) : Except Fault Scanner := do
  let s ← s.skipGap.dropStale
  let s := s.closeBlocks (some s.cursor.column)
  let s ← match s.cursor.rest with
    | [] => s.finish
    | c :: cs => s.next c cs
  s.dropStale

def isFinished (s : Scanner) : Bool := s.tokens.head?.any fun t => t.lexeme = .streamEnd

/-- Scans at most `n` more tokens. A fault leaves the tokens that were settled before it. -/
def run : Nat → Scanner → TokenStream
  | 0, s => ⟨s.settled, none⟩
  | n + 1, s =>
    match s.step with
    | .error f => ⟨s.settled, some f⟩
    | .ok s => if s.isFinished then ⟨s.settled, none⟩ else run n s

end Scanner

def isAllowed (c : Char) : Bool :=
  let n := c.toNat
  n == 0x09 || n == 0x0A || n == 0x0D || (0x20 ≤ n && n ≤ 0x7E) || n == 0x85
    || (0xA0 ≤ n && n ≤ 0xD7FF) || (0xE000 ≤ n && n ≤ 0xFFFD) || 0x10000 ≤ n

/-- The tokens of a text, up to the first fault. -/
def scan (text : List Char) : TokenStream :=
  let before := text.takeWhile isAllowed
  if before.length < text.length then ⟨[], some (.controlCharacter (Text.byteLength before))⟩
  else Scanner.run (text.length + 1) (Scanner.start text)

end ServiceSchema.Yaml
