import ServiceSchema.Category

/-! # Codec calls
The call of a compiled codec, and the code around it. An input is decoded and handed to its callback, an
output is encoded and sent under its id. -/
namespace ServiceSchema

inductive CodecRole where
  | decode (callback : String)
  | encode (id : UInt16)
deriving DecidableEq

structure Codec where
  /-- The structure that the codec reads or writes. -/
  type : String
  /-- The function to call. -/
  entryPoint : String
  /-- The operand that includes its header. -/
  header : String
  role : CodecRole
deriving DecidableEq

namespace Codec

def snippet (c : Codec) : String :=
  match c.role with
  | .decode callback =>
    c.type ++ " decoded\x7b\x7d;\n"
      ++ "if (" ++ c.entryPoint
      ++ "(static_cast<const uint8_t *>(payload), length, &decoded, nullptr) != ZCBOR_SUCCESS) \x7b\n"
      ++ "    return false;\n"
      ++ "\x7d\n"
      ++ "return " ++ callback ++ "(decoded);\n"
  | .encode id =>
    "size_t encoded_length = 0;\n"
      ++ "if (" ++ c.entryPoint
      ++ "(scratch_buffer, sizeof(scratch_buffer), &data, &encoded_length) != ZCBOR_SUCCESS) \x7b\n"
      ++ "    return false;\n"
      ++ "\x7d\n"
      ++ s!"return SendData({id.toNat}, scratch_buffer, encoded_length);\n"

end Codec
end ServiceSchema
