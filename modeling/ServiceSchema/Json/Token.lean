import ServiceSchema.Json.Fault
import ServiceSchema.Json.Numeral

/-! # Tokens
A JSON text is a list of tokens with blanks between them. A token keeps the text from its first character
on, so that a fault can point at it. Scanning stops at the first thing that is no token; whether that is a
fault, and which, depends on what may stand there. -/
namespace ServiceSchema.Json

inductive Lexeme where
  | beginArray
  | endArray
  | beginObject
  | endObject
  | comma
  | colon
  | null
  | bool (b : Bool)
  | number (n : Number)
  | string (s : String)
  /-- Begins like a value that may stand anywhere but as a key. -/
  | broken (fault : Fault)
  /-- Begins like a string. -/
  | brokenString (fault : Fault)
  | foreign
deriving DecidableEq

structure Token where
  lexeme : Lexeme
  start : List Char
deriving DecidableEq

def isBlank (c : Char) : Bool := c = ' ' || c = '\n' || c = '\t' || c = '\r'

namespace Lexeme

/-- Reads the rest of a keyword. -/
def keyword : List Char → List Char → Except Fault (List Char)
  | [], cs => .ok cs
  | _ :: _, [] => .error (.eof .eofInValue)
  | k :: ks, c :: cs => if c = k then keyword ks cs else .error (.unexpected .expectedKeyword (c :: cs))

/-! ## Strings -/

def simpleEscape? (c : Char) : Option Char :=
  if c = '"' then some '"'
  else if c = '\\' then some '\\'
  else if c = '/' then some '/'
  else if c = 'b' then some '\x08'
  else if c = 'f' then some '\x0c'
  else if c = 'n' then some '\n'
  else if c = 'r' then some '\r'
  else if c = 't' then some '\t'
  else none

def hexDigit? (c : Char) : Option Nat :=
  if '0' ≤ c ∧ c ≤ '9' then some (c.toNat - '0'.toNat)
  else if 'a' ≤ c ∧ c ≤ 'f' then some (c.toNat - 'a'.toNat + 10)
  else if 'A' ≤ c ∧ c ≤ 'F' then some (c.toNat - 'A'.toNat + 10)
  else none

def hexQuad? (a b c d : Char) : Option Nat :=
  match hexDigit? a, hexDigit? b, hexDigit? c, hexDigit? d with
  | some a, some b, some c, some d => some (((a * 16 + b) * 16 + c) * 16 + d)
  | _, _, _, _ => none

def isLeadSurrogate (n : Nat) : Bool := 0xD800 ≤ n && n ≤ 0xDBFF
def isTrailSurrogate (n : Nat) : Bool := 0xDC00 ≤ n && n ≤ 0xDFFF

/-- The character of a surrogate pair. -/
def pairedChar (lead trail : Nat) : Char := Char.ofNat (0x10000 + (lead - 0xD800) * 0x400 + (trail - 0xDC00))

/-- A hex escape with fewer than four characters left: an end of text if fewer than four bytes are left. -/
def shortEscape (cs : List Char) : Fault :=
  if Text.byteLength cs < 4 then .eof .eofInString else ⟨.invalidEscape, cs, 4⟩

/-- Reads a string up to its closing quote; `lead` is a leading surrogate that waits for its partner. -/
def stringBody (lead : Option Nat) : List Char → Except Fault (List Char × List Char)
  | [] => .error (.eof .eofInString)
  | c :: cs =>
    if c = '\\' then
      match cs with
      | [] => .error (.eof .eofInString)
      | e :: es =>
        if e = 'u' then
          match es with
          | h₁ :: h₂ :: h₃ :: h₄ :: rest =>
            match hexQuad? h₁ h₂ h₃ h₄, lead with
            | none, _ => .error ⟨.invalidEscape, es, 4⟩
            | some n, some m =>
              if isTrailSurrogate n then (stringBody none rest).map fun r => (pairedChar m n :: r.1, r.2)
              else .error (.upTo .loneSurrogate rest)
            | some n, none =>
              if isTrailSurrogate n then .error (.upTo .loneSurrogate rest)
              else if isLeadSurrogate n then stringBody (some n) rest
              else (stringBody none rest).map fun r => (Char.ofNat n :: r.1, r.2)
          | short => .error (shortEscape short)
        else if lead.isSome then .error (.unexpected .unpairedSurrogate (e :: es))
        else
          match simpleEscape? e with
          | some d => (stringBody none es).map fun r => (d :: r.1, r.2)
          | none => .error (.unexpected .invalidEscape (e :: es))
    else if lead.isSome then .error (.unexpected .unpairedSurrogate (c :: cs))
    else if c = '"' then .ok ([], cs)
    else if c < ' ' then .error (.unexpected .controlCharacter (c :: cs))
    else (stringBody none cs).map fun r => (c :: r.1, r.2)

/-! ## Numbers -/

def digit? (c : Char) : Option Nat :=
  if '0' ≤ c ∧ c ≤ '9' then some (c.toNat - '0'.toNat) else none

/-- The digits that begin a text, and what follows them. -/
def digits : List Char → List Nat × List Char
  | [] => ([], [])
  | c :: cs =>
    match digit? c with
    | some d => (d :: (digits cs).1, (digits cs).2)
    | none => ([], c :: cs)

/-- At least one digit. -/
def someDigits (cs : List Char) : Except Fault (List Nat × List Char) :=
  match digits cs with
  | ([], []) => .error (.eof .eofInValue)
  | ([], c :: cs) => .error (.unexpected .invalidNumber (c :: cs))
  | r => .ok r

/-- The digits before the point: a zero stands alone. -/
def wholeDigits (cs : List Char) : Except Fault (List Nat × List Char) :=
  match cs with
  | '0' :: rest =>
    match digits rest with
    | ([], rest) => .ok ([0], rest)
    | _ => .error (.unexpected .invalidNumber rest)
  | _ => someDigits cs

def fractionPart : List Char → Except Fault (Option (List Nat) × List Char)
  | '.' :: cs => (someDigits cs).map fun r => (some r.1, r.2)
  | cs => .ok (none, cs)

def exponentDigits (negative : Bool) (cs : List Char) : Except Fault (Option Exponent × List Char) :=
  (someDigits cs).map fun r => (some ⟨negative, r.1⟩, r.2)

def exponentPart : List Char → Except Fault (Option Exponent × List Char)
  | c :: cs =>
    if c = 'e' ∨ c = 'E' then
      match cs with
      | '+' :: cs => exponentDigits false cs
      | '-' :: cs => exponentDigits true cs
      | cs => exponentDigits false cs
    else .ok (none, c :: cs)
  | [] => .ok (none, [])

/-- Reads a numeral whose sign has been read. -/
def readNumeral (negative : Bool) (cs : List Char) : Except Fault (Numeral × List Char) := do
  let (whole, cs) ← wholeDigits cs
  let (fraction, cs) ← fractionPart cs
  let (exponent, cs) ← exponentPart cs
  return (⟨negative, whole, fraction, exponent⟩, cs)

/-- Where a numeral that is out of range stops being read. -/
def outOfRange (x : Numeral) (rest : List Char) (cs : List Char) : Numeral.OutOfRange → Fault
  | .atEnd => .upTo .numberOutOfRange rest
  | .atExponentDigit n =>
    let unseen := (x.exponent.elim 0 fun e => e.digits.length) - n + rest.length
    .upTo .numberOutOfRange (cs.drop (cs.length - unseen))

def readNumber (negative : Bool) (cs : List Char) : Except Fault (Number × List Char) := do
  let (x, rest) ← readNumeral negative cs
  match x.value with
  | .ok n => return (n, rest)
  | .error e => throw (outOfRange x rest cs e)

/-! ## All lexemes -/

/-- A lexeme and the text behind it. What breaks off has nothing behind it. -/
def orBroken {α : Type} (broken : Fault → Lexeme) (f : α → Lexeme) :
    Except Fault (α × List Char) → Lexeme × List Char
  | .ok (a, rest) => (f a, rest)
  | .error e => (broken e, [])

/-- Reads the lexeme that begins with `c`. -/
def read (c : Char) (cs : List Char) : Lexeme × List Char :=
  if c = '[' then (.beginArray, cs)
  else if c = ']' then (.endArray, cs)
  else if c = '\x7b' then (.beginObject, cs)
  else if c = '\x7d' then (.endObject, cs)
  else if c = ',' then (.comma, cs)
  else if c = ':' then (.colon, cs)
  else if c = 'n' then orBroken .broken (fun _ => .null) ((keyword ['u', 'l', 'l'] cs).map ((), ·))
  else if c = 't' then orBroken .broken (fun _ => .bool true) ((keyword ['r', 'u', 'e'] cs).map ((), ·))
  else if c = 'f' then orBroken .broken (fun _ => .bool false) ((keyword ['a', 'l', 's', 'e'] cs).map ((), ·))
  else if c = '"' then orBroken .brokenString (fun s => .string (String.ofList s)) (stringBody none cs)
  else if c = '-' then orBroken .broken .number (readNumber true cs)
  else if (digit? c).isSome then orBroken .broken .number (readNumber false (c :: cs))
  else (.foreign, [])

end Lexeme

namespace Token

/-- Scans with at most `n` characters to come. -/
def scanWithin : Nat → List Char → List Token
  | 0, _ => []
  | _ + 1, [] => []
  | n + 1, c :: cs =>
    if isBlank c then scanWithin n cs
    else
      let (lexeme, rest) := Lexeme.read c cs
      ⟨lexeme, c :: cs⟩ :: scanWithin n rest

def scan (cs : List Char) : List Token := scanWithin cs.length cs

end Token
end ServiceSchema.Json
