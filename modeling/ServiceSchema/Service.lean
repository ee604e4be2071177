import ServiceSchema.CArray
import ServiceSchema.FieldKind
import ServiceSchema.Identifier

/-! # Services
What a schema compiles to: fields with their kinds and names, the headers that their codecs need, and the
document itself in its two canonical forms. -/
namespace ServiceSchema

structure Field where
  category : Category
  id : UInt16
  /-- As it is written in the schema. -/
  rawName : String
  name : String
  kind : FieldKind
  callbackName : String
  methodName : String
  /-- The default of a register, as JSON. -/
  default : Option String
deriving DecidableEq

namespace Field

def decoderCode? (f : Field) : Option String :=
  match f.kind with
  | .compiled ⟨type, entryPoint, header, .decode callback⟩ =>
    some (Codec.snippet ⟨type, entryPoint, header, .decode callback⟩)
  | _ => none

def encoderCode? (f : Field) : Option String :=
  match f.kind with
  | .compiled ⟨type, entryPoint, header, .encode id⟩ =>
    some (Codec.snippet ⟨type, entryPoint, header, .encode id⟩)
  | _ => none

end Field

structure Service where
  serviceType : String
  version : UInt32
  inputs : List Field
  outputs : List Field
  registers : List Field
  includes : Includes
  json : String
  cbor : List UInt8
deriving DecidableEq

namespace Service

def className (s : Service) : String := Identifier.className s.serviceType

def interfaceClassName (s : Service) : String := Identifier.interfaceClassName s.serviceType

def cArray (s : Service) : String := CArray.literal s.cbor

def fields (s : Service) : Category → List Field
  | .input => s.inputs
  | .output => s.outputs
  | .register => s.registers

end Service
end ServiceSchema
