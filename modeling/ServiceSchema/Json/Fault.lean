import ServiceSchema.Text.Position

/-! # Syntax faults
Why a text is no JSON document, and where. A fault remembers the text that was still unread and how many
bytes of it had been looked at; its line and column follow from the whole text. -/
namespace ServiceSchema.Json
open ServiceSchema.Text

inductive Reason where
  | eofInValue
  | eofInList
  | eofInObject
  | eofInString
  | expectedValue
  | expectedKeyword
  | expectedColon
  | expectedCommaOrBracket
  | expectedCommaOrBrace
  | keyNotString
  | trailingComma
  | trailingCharacters
  | invalidNumber
  | numberOutOfRange
  | invalidEscape
  | controlCharacter
  | loneSurrogate
  | unpairedSurrogate
  | tooDeep
deriving DecidableEq

def Reason.message : Reason → String
  | .eofInValue => "EOF while parsing a value"
  | .eofInList => "EOF while parsing a list"
  | .eofInObject => "EOF while parsing an object"
  | .eofInString => "EOF while parsing a string"
  | .expectedValue => "expected value"
  | .expectedKeyword => "expected ident"
  | .expectedColon => "expected `:`"
  | .expectedCommaOrBracket => "expected `,` or `]`"
  | .expectedCommaOrBrace => "expected `,` or `\x7d`"
  | .keyNotString => "key must be a string"
  | .trailingComma => "trailing comma"
  | .trailingCharacters => "trailing characters"
  | .invalidNumber => "invalid number"
  | .numberOutOfRange => "number out of range"
  | .invalidEscape => "invalid escape"
  | .controlCharacter => "control character (\\u0000-\\u001F) found while parsing a string"
  | .loneSurrogate => "lone leading surrogate in hex escape"
  | .unpairedSurrogate => "unexpected end of hex escape"
  | .tooDeep => "recursion limit exceeded"

structure Fault where
  reason : Reason
  unread : List Char
  ahead : Nat
deriving DecidableEq

namespace Fault

/-- The text ended too early. -/
def eof (reason : Reason) : Fault := ⟨reason, [], 0⟩

/-- The first byte of the unread text is not what may stand there. -/
def unexpected (reason : Reason) (unread : List Char) : Fault := ⟨reason, unread, 1⟩

/-- What was read up to here is wrong as a whole. -/
def upTo (reason : Reason) (unread : List Char) : Fault := ⟨reason, unread, 0⟩

def position (text : List Char) (f : Fault) : Position :=
  (Position.start.after (text.take (text.length - f.unread.length))).afterBytes f.ahead f.unread

end Fault

/-- A fault as it is reported. -/
structure SyntaxError where
  reason : Reason
  position : Position
deriving DecidableEq

def Fault.located (text : List Char) (f : Fault) : SyntaxError := ⟨f.reason, f.position text⟩

def SyntaxError.message (e : SyntaxError) : String :=
  s!"{e.reason.message} at line {e.position.line} column {e.position.column}"

end ServiceSchema.Json
