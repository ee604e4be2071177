import ServiceSchema.Json.Printer
import ServiceSchema.Double.Interchange

/-! # CBOR faults
Why bytes are no document. A fault of form remembers how many bytes were left where it shows, which gives
its offset once the whole input is known. -/
namespace ServiceSchema.Cbor

/-- What was met in place of what was expected. -/
inductive Found where
  | bool (b : Bool)
  | integer (n : Int)
  | float (x : Double.Wide)
  | null
  | undefined
  | simple
  | break
  | bytes
  | byteArray
  | string
  | sequence
  | map
  | enumeration
deriving DecidableEq

inductive Wanted where
  | value
  | knownSimple
  | nonBreak
  | firstKey
  | laterKey
deriving DecidableEq

inductive Fault where
  | endOfInput
  | malformed (left : Nat)
  | tooDeep
  | mismatch (found : Found) (wanted : Wanted)
  | numberOutOfRange
  | integerTooLarge
deriving DecidableEq

def Found.message : Found → String
  | .bool b => s!"boolean `{b}`"
  | .integer n => s!"integer `{n}`"
  | .float (.finite x) => s!"floating point `{String.ofList x.printPlain}`"
  | .float (.infinite true) => "floating point `-inf`"
  | .float (.infinite false) => "floating point `inf`"
  | .float .nan => "floating point `NaN`"
  | .null => "null"
  | .undefined => "undefined"
  | .simple => "simple"
  | .break => "break"
  | .bytes => "bytes"
  | .byteArray => "byte array"
  | .string => "string"
  | .sequence => "sequence"
  | .map => "map"
  | .enumeration => "enum"

def Wanted.message : Wanted → String
  | .value => "any valid JSON value"
  | .knownSimple => "known simple value"
  | .nonBreak => "non-break"
  | .firstKey => "str"
  | .laterKey => "string"

/-- A decoding error as it is reported, with offsets into the input. -/
inductive DecodeError where
  | endOfInput
  | malformed (offset : Nat)
  | tooDeep
  | semantic (message : String)
deriving DecidableEq

def Fault.located (length : Nat) : Fault → DecodeError
  | .endOfInput => .endOfInput
  | .malformed left => .malformed (length - left)
  | .tooDeep => .tooDeep
  | .mismatch found wanted => .semantic s!"invalid type: {found.message}, expected {wanted.message}"
  | .numberOutOfRange => .semantic "JSON number out of range"
  | .integerTooLarge => .semantic "integer too large"

def DecodeError.message : DecodeError → String
  | .endOfInput => "Io(Error \x7b kind: UnexpectedEof, message: \"failed to fill whole buffer\" \x7d)"
  | .malformed offset => s!"Syntax({offset})"
  | .tooDeep => "RecursionLimitExceeded"
  | .semantic message => s!"Semantic(None, \"{message}\")"

end ServiceSchema.Cbor
