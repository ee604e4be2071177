import ServiceSchema.Json.Printer
import ServiceSchema.Service

/-! # Service records
A service as the JSON record that templates read. The keys have a fixed order; what a field does not have is
left out of its record. -/
namespace ServiceSchema
open ServiceSchema.Json

/-- A member that is left out without a value. -/
def optionalMember (key : String) (value : Option Value) : List (String × Value) :=
  (value.map fun v => (key, v)).toList

def Field.members (f : Field) : Members :=
  [("id", .number (.ofWord f.id.toUInt64)), ("name", .string f.name), ("raw_name", .string f.rawName),
    ("type", .string f.kind.typeName), ("is_array", .bool f.kind.isArray)]
  ++ optionalMember "max_length" (f.kind.maxLength?.map fun n => .number (.ofWord n.toUInt64))
  ++ [("encoding", .string f.kind.encoding.name), ("callback_name", .string f.callbackName),
    ("method_name", .string f.methodName)]
  ++ optionalMember "custom_decoder_code" (f.decoderCode?.map .string)
  ++ optionalMember "custom_encoder_code" (f.encoderCode?.map .string)
  ++ optionalMember "default" (f.default.map .string)

def Field.record (f : Field) : Value := .object f.members

namespace Service

def members (s : Service) : Members := [
  ("type", .string s.serviceType),
  ("version", .number (.ofWord s.version.toUInt64)),
  ("class_name", .string s.className),
  ("interface_class_name", .string s.interfaceClassName),
  ("inputs", .array (s.inputs.map Field.record)),
  ("outputs", .array (s.outputs.map Field.record)),
  ("registers", .array (s.registers.map Field.record)),
  ("additional_includes", .array (s.includes.items.map .string)),
  ("service_json", .string s.json),
  ("service_cbor", .array (s.cbor.map fun b => .number (.ofWord b.toUInt64))),
  ("service_cbor_c_array", .string s.cArray)]

def record (s : Service) : Value := .object s.members

/-- The text of the record, on one line or indented. -/
def render (s : Service) (compact : Bool) : String := if compact then s.record.compact else s.record.pretty

end Service
end ServiceSchema
