import ServiceSchema.Cbor.Head
import ServiceSchema.Text.Utf8

/-! # Writing CBOR
Definite lengths, shortest heads, members in the order they have, and each double in the narrowest of
three precisions that holds it exactly. -/
namespace ServiceSchema.Cbor
open ServiceSchema.Json

def encodeDouble (x : Double) : List UInt8 :=
  match x.toBits? .half, x.toBits? .single, x.toBits? .double with
  | some n, _, _ => 0xF9 :: bigEndian 2 n
  | none, some n, _ => 0xFA :: bigEndian 4 n
  | none, none, some n => 0xFB :: bigEndian 8 n
  | none, none, none => []

def encodeNumber : Number → List UInt8
  | .integer n _ => if 0 ≤ n then head 0 n.toNat else head 1 (-1 - n).toNat
  | .double x => encodeDouble x

def encodeString (s : String) : List UInt8 :=
  let bytes := Utf8.encode s.toList
  head 3 bytes.length ++ bytes

def encode : Value → List UInt8
  | .null => [0xF6]
  | .bool false => [0xF4]
  | .bool true => [0xF5]
  | .number n => encodeNumber n
  | .string s => encodeString s
  | .array vs => head 4 vs.length ++ items vs
  | .object ms => head 5 ms.length ++ members ms
where
  items : List Value → List UInt8
  | [] => []
  | v :: vs => encode v ++ items vs
  members : List (String × Value) → List UInt8
  | [] => []
  | (k, v) :: ms => encodeString k ++ encode v ++ members ms

end ServiceSchema.Cbor
