import ServiceSchema.Profile

/-! # Encodings
How a field travels: raw, as fixed-width bytes, or through a compiled codec. A schema asks for one by a
directive, which the profile spells; without a directive a field is raw. -/
namespace ServiceSchema

inductive Encoding where
  | raw
  | compiled
deriving DecidableEq

inductive EncodingFault where
  /-- The directive is neither of these two. -/
  | unknownDirective (raw compiled : String)
  | compiledArray
  | compiledRegister
deriving DecidableEq

def EncodingFault.message : EncodingFault → String
  | .unknownDirective raw compiled => s!"expected '{raw}' or '{compiled}'"
  | .compiledArray => "compiled codecs are only supported on non-array fields"
  | .compiledRegister => "compiled codecs are not supported on registers"

namespace Encoding

def name : Encoding → String
  | .raw => "raw"
  | .compiled => "compiled"

/-- The raw directive is looked at first. -/
def ofDirective (p : Profile) : Option String → Except EncodingFault Encoding
  | none => .ok .raw
  | some d =>
    if d = p.rawEncoding then .ok .raw
    else if d = p.compiledEncoding then .ok .compiled
    else .error (.unknownDirective p.rawEncoding p.compiledEncoding)

end Encoding
end ServiceSchema
