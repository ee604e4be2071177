import ServiceSchema.Cbor.Fault

/-! # CBOR heads
The first bytes of a data item: its major type and an argument in the shortest of five widths when written,
in any of them when read. -/
namespace ServiceSchema.Cbor

inductive Head where
  | positive (n : Nat)
  | negative (n : Nat)
  | bytes (length : Option Nat)
  | text (length : Option Nat)
  | array (length : Option Nat)
  | map (length : Option Nat)
  | tag (n : Nat)
  | simple (n : Nat)
  | float (x : Double.Wide)
  | break
deriving DecidableEq

/-- The last `width` bytes of a number, most significant first. -/
def bigEndian : Nat → Nat → List UInt8
  | 0, _ => []
  | width + 1, n => UInt8.ofNat (n / Nat.pow 256 width % 256) :: bigEndian width n

def ofBigEndian (bytes : List UInt8) : Nat := bytes.foldl (fun n b => n * 256 + b.toNat) 0

theorem bigEndian_length (width n : Nat) : (bigEndian width n).length = width := by
  induction width with
  | zero => rfl
  | succ w ih => simp [bigEndian, ih]

/-- The head of major type `major` with argument `n`, in its shortest form. -/
def head (major n : Nat) : List UInt8 :=
  if n < 24 then [UInt8.ofNat (major * 32 + n)]
  else if n < 0x100 then UInt8.ofNat (major * 32 + 24) :: bigEndian 1 n
  else if n < 0x10000 then UInt8.ofNat (major * 32 + 25) :: bigEndian 2 n
  else if n < 0x100000000 then UInt8.ofNat (major * 32 + 26) :: bigEndian 4 n
  else UInt8.ofNat (major * 32 + 27) :: bigEndian 8 n

namespace Head

/-- A number of so many bytes. -/
def argument (width : Nat) (bytes : List UInt8) : Except Fault (Nat × List UInt8) :=
  if bytes.length < width then .error .endOfInput
  else .ok (ofBigEndian (bytes.take width), bytes.drop width)

/-- The head of a major type below seven; `left` locates a fault. -/
def ofMajor (left major : Nat) (n : Option Nat) : Except Fault Head :=
  match major, n with
  | 0, some n => .ok (.positive n)
  | 1, some n => .ok (.negative n)
  | 2, n => .ok (.bytes n)
  | 3, n => .ok (.text n)
  | 4, n => .ok (.array n)
  | 5, n => .ok (.map n)
  | 6, some n => .ok (.tag n)
  | _, _ => .error (.malformed left)

/-- The head of major type seven whose argument has so many bytes. -/
def ofOther (width n : Nat) : Head :=
  if width = 2 then .float (Double.ofBits .half n)
  else if width = 4 then .float (Double.ofBits .single n)
  else if width = 8 then .float (Double.ofBits .double n)
  else .simple n

def read : List UInt8 → Except Fault (Head × List UInt8)
  | [] => .error .endOfInput
  | b :: rest =>
    let major := b.toNat / 32
    let info := b.toNat % 32
    let left := rest.length + 1
    if info < 24 then
      if major = 7 then .ok (.simple info, rest)
      else (ofMajor left major (some info)).map (·, rest)
    else if info < 28 then
      match argument (Nat.pow 2 (info - 24)) rest with
      | .error e => .error e
      | .ok (n, rest) =>
        if major = 7 then .ok (ofOther (Nat.pow 2 (info - 24)) n, rest)
        else (ofMajor left major (some n)).map (·, rest)
    else if info = 31 then
      if major = 7 then .ok (.break, rest)
      else (ofMajor left major none).map (·, rest)
    else .error (.malformed left)

/-- What a head announces, in the words of an error. -/
def found : Head → Found
  | .positive n => .integer n
  | .negative n => .integer (Int.bmod (-1 - n) 0x10000000000000000)
  | .bytes _ => .bytes
  | .text _ => .string
  | .array _ => .sequence
  | .map _ => .map
  | .tag _ => .enumeration
  | .simple 20 => .bool false
  | .simple 21 => .bool true
  | .simple 22 => .null
  | .simple 23 => .undefined
  | .simple _ => .simple
  | .float x => .float x
  | .break => .break

end Head
end ServiceSchema.Cbor
