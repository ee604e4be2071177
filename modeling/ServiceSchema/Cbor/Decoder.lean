import ServiceSchema.Cbor.Encoder

/-! # Reading CBOR
One data item, whatever follows it. Every spelling of an item is accepted: heads that are longer than need
be, indefinite lengths, numbers as big integers of up to 16 bytes. Numbers that are not finite read as null,
and the last of several values for one key stays. -/
namespace ServiceSchema.Cbor
open ServiceSchema.Json

/-- At most so many containers may be nested. -/
def maxLevels : Nat := 256

/-- A text is looked at in windows of so many bytes; a first key must fit in one. -/
def windowSize : Nat := 4096

/-! ## Texts -/

/-- Does a text that is cut short show a fault before its end? Each window may carry at most three bytes over
into the next one. -/
def faultBeforeEnd : Nat → List UInt8 → Bool
  | 0, _ => false
  | n + 1, bytes =>
    if bytes.length < windowSize then false
    else
      let rest := (Utf8.split (bytes.take windowSize)).2
      if 3 < rest.length then true
      else faultBeforeEnd n (bytes.drop (windowSize - rest.length))

/-- A text of `length` bytes; `left` locates a fault in it. -/
def text (left length : Nat) (bytes : List UInt8) : Except Fault (List Char × List UInt8) :=
  if length ≤ bytes.length then
    match Utf8.decode? (bytes.take length) with
    | some cs => .ok (cs, bytes.drop length)
    | none => .error (.malformed left)
  else if windowSize < length ∧ faultBeforeEnd bytes.length bytes then .error (.malformed left)
  else .error .endOfInput

/-- The segments of a text of indefinite length, `nested` of which are still open. -/
def segments : Nat → Nat → List UInt8 → Except Fault (List Char × List UInt8)
  | 0, _, _ => .error .endOfInput
  | fuel + 1, nested, bytes => do
    match ← Head.read bytes with
    | (.break, rest) => if nested ≤ 1 then return ([], rest) else segments fuel (nested - 1) rest
    | (.text none, rest) => segments fuel (nested + 1) rest
    | (.text (some length), rest) =>
      let (cs, rest) ← text bytes.length length rest
      let (ds, rest) ← segments fuel nested rest
      return (cs ++ ds, rest)
    | _ => throw (.malformed bytes.length)

/-- A text whose head has been read. A fault in it is located as if its head were as short as can be. -/
def textItem (length : Option Nat) (bytes : List UInt8) : Except Fault (String × List UInt8) :=
  match length with
  | some n => (text (bytes.length + (head 3 n).length) n bytes).map fun r => (String.ofList r.1, r.2)
  | none => (segments bytes.length 1 bytes).map fun r => (String.ofList r.1, r.2)

/-! ## Byte strings -/

def skipBytes (length : Nat) (bytes : List UInt8) : Except Fault (List UInt8) :=
  if length ≤ bytes.length then .ok (bytes.drop length) else .error .endOfInput

def byteSegments : Nat → Nat → List UInt8 → Except Fault (List UInt8)
  | 0, _, _ => .error .endOfInput
  | fuel + 1, nested, bytes => do
    match ← Head.read bytes with
    | (.break, rest) => if nested ≤ 1 then return rest else byteSegments fuel (nested - 1) rest
    | (.bytes none, rest) => byteSegments fuel (nested + 1) rest
    | (.bytes (some length), rest) => byteSegments fuel nested (← skipBytes length rest)
    | _ => throw (.malformed bytes.length)

/-- A byte string stands for no JSON value, but it must be there. -/
def bytesItem (length : Option Nat) (bytes : List UInt8) : Except Fault (Value × List UInt8) := do
  match length with
  | some n => discard (skipBytes n bytes)
  | none => discard (byteSegments bytes.length 1 bytes)
  throw (.mismatch .byteArray .value)

/-! ## Numbers -/

def integer (n : Int) (rest : List UInt8) : Except Fault (Value × List UInt8) :=
  match Number.ofInt? n with
  | some n => .ok (.number n, rest)
  | none => .error .numberOutOfRange

/-- A big integer of `length` bytes. -/
def bigInteger (negative : Bool) (length : Nat) (bytes : List UInt8) : Except Fault (Value × List UInt8) := do
  let rest ← skipBytes length bytes
  let n := ofBigEndian (bytes.take length)
  if negative then
    if n < Nat.pow 2 127 then integer (-1 - n) rest else throw .integerTooLarge
  else integer n rest

def float (x : Double.Wide) (rest : List UInt8) : Except Fault (Value × List UInt8) :=
  match x with
  | .finite x => .ok (.number (.double x), rest)
  | _ => .ok (.null, rest)

/-! ## Tags -/

/-- A tagged item: a big integer, or nothing that a JSON value can be. -/
def tagged (tag : Nat) (bytes : List UInt8) : Except Fault (Value × List UInt8) := do
  match ← Head.read bytes with
  | (.bytes (some length), rest) =>
    if (tag = 2 ∨ tag = 3) ∧ length ≤ 16 then bigInteger (tag = 3) length rest
    else throw (.mismatch .enumeration .value)
  | _ => throw (.mismatch .enumeration .value)

def simple (n : Nat) (rest : List UInt8) : Except Fault (Value × List UInt8) :=
  match n with
  | 20 => .ok (.bool false, rest)
  | 21 => .ok (.bool true, rest)
  | 22 | 23 => .ok (.null, rest)
  | _ => .error (.mismatch .simple .knownSimple)

/-! ## Keys -/

/-- The first key of a map must be a definite text that fits in one window. Tags before it are skipped;
`pushed` tells whether its head was already looked at, which shortens it. -/
def firstKey : Nat → Bool → List UInt8 → Except Fault (String × List UInt8)
  | 0, _, _ => .error .endOfInput
  | fuel + 1, pushed, bytes => do
    match ← Head.read bytes with
    | (.tag _, rest) => firstKey fuel false rest
    | (.text (some length), rest) =>
      if length ≤ windowSize then
        let left := if pushed then rest.length + (head 3 length).length else bytes.length
        (text left length rest).map fun r => (String.ofList r.1, r.2)
      else throw (.mismatch .string .firstKey)
    | (h, _) => throw (.mismatch h.found .firstKey)

/-- A later key may be any text. -/
def laterKey : Nat → List UInt8 → Except Fault (String × List UInt8)
  | 0, _ => .error .endOfInput
  | fuel + 1, bytes => do
    match ← Head.read bytes with
    | (.tag _, rest) => laterKey fuel rest
    | (.text length, rest) => textItem length rest
    | (h, _) => throw (.mismatch h.found .laterKey)

/-! ## Containers -/

/-- Exactly so many items. -/
def exactly {α : Type} (read : Bool → List UInt8 → Except Fault (α × List UInt8)) :
    Bool → Nat → List UInt8 → Except Fault (List α × List UInt8)
  | _, 0, bytes => .ok ([], bytes)
  | first, n + 1, bytes => do
    let (a, rest) ← read first bytes
    let (as, rest) ← exactly read false n rest
    return (a :: as, rest)

/-- Items up to a break. -/
def untilBreak {α : Type} (read : Bool → List UInt8 → Except Fault (α × List UInt8)) :
    Nat → Bool → List UInt8 → Except Fault (List α × List UInt8)
  | 0, _, _ => .error .endOfInput
  | fuel + 1, first, bytes => do
    match ← Head.read bytes with
    | (.break, rest) => return ([], rest)
    | _ =>
      let (a, rest) ← read first bytes
      let (as, rest) ← untilBreak read fuel false rest
      return (a :: as, rest)

def sequence {α : Type} (read : Bool → List UInt8 → Except Fault (α × List UInt8))
    (length : Option Nat) (bytes : List UInt8) : Except Fault (List α × List UInt8) :=
  match length with
  | some n => exactly read true n bytes
  | none => untilBreak read (bytes.length + 1) true bytes

def entry (value : List UInt8 → Except Fault (Value × List UInt8)) (pushed first : Bool) (bytes : List UInt8) :
    Except Fault ((String × Value) × List UInt8) := do
  let (key, rest) ← if first then firstKey (bytes.length + 1) pushed bytes
    else laterKey (bytes.length + 1) bytes
  let (v, rest) ← value rest
  return ((key, v), rest)

def Members.ofEntries (entries : List (String × Value)) : Members :=
  entries.foldl (fun ms e => Json.Members.insert e.1 e.2 ms) []

/-- One item with at most so many levels of containers in it. -/
def item : Nat → List UInt8 → Except Fault (Value × List UInt8)
  | levels, bytes => do
    match ← Head.read bytes with
    | (.positive n, rest) => integer n rest
    | (.negative n, rest) => integer (-1 - n) rest
    | (.bytes length, rest) => bytesItem length rest
    | (.text length, rest) => (textItem length rest).map fun r => (.string r.1, r.2)
    | (.array length, rest) =>
      match levels with
      | 0 => throw .tooDeep
      | n + 1 => (sequence (fun _ => item n) length rest).map fun r => (.array r.1, r.2)
    | (.map length, rest) =>
      match levels with
      | 0 => throw .tooDeep
      | n + 1 =>
        let entries := sequence (entry (item n) length.isNone) length rest
        entries.map fun r => (.object (Members.ofEntries r.1), r.2)
    | (.tag n, rest) => tagged n rest
    | (.simple n, rest) => simple n rest
    | (.float x, rest) => float x rest
    | (.break, _) => throw (.mismatch .break .nonBreak)

/-- The document that the first item of `bytes` stands for. -/
def decode (bytes : List UInt8) : Except DecodeError Value :=
  ((item maxLevels bytes).map Prod.fst).mapError (Fault.located bytes.length)

end ServiceSchema.Cbor
