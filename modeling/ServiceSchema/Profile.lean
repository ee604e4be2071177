/-! # Codec profiles
Which directives select raw and compiled encoding, and how the functions and headers of compiled codecs are
named. A sound profile keeps the two encodings, and decoders and encoders, apart. -/
namespace ServiceSchema

structure Profile where
  rawEncoding : String
  compiledEncoding : String
  decodeEntryPrefix : String
  encodeEntryPrefix : String
  decodeIncludeSuffix : String
  encodeIncludeSuffix : String
deriving DecidableEq

namespace Profile

def standard : Profile :=
  ⟨"raw", "zcbor", "cbor_decode_", "cbor_encode_", "_decode.h", "_encode.h"⟩

/-! ## Keys -/

inductive Key where
  | rawEncoding
  | compiledEncoding
  | decodeEntryPrefix
  | encodeEntryPrefix
  | decodeIncludeSuffix
  | encodeIncludeSuffix
deriving DecidableEq

namespace Key

def all : List Key :=
  [.rawEncoding, .compiledEncoding, .decodeEntryPrefix, .encodeEntryPrefix, .decodeIncludeSuffix,
    .encodeIncludeSuffix]

theorem mem_all (k : Key) : k ∈ all := by cases k <;> decide

def name : Key → String
  | .rawEncoding => "raw_encoding"
  | .compiledEncoding => "compiled_encoding"
  | .decodeEntryPrefix => "decode_entry_prefix"
  | .encodeEntryPrefix => "encode_entry_prefix"
  | .decodeIncludeSuffix => "decode_include_suffix"
  | .encodeIncludeSuffix => "encode_include_suffix"

def ofName? (s : String) : Option Key := all.find? fun k => k.name = s

theorem ofName?_name (k : Key) : ofName? k.name = some k := by cases k <;> decide

end Key

def get (p : Profile) : Key → String
  | .rawEncoding => p.rawEncoding
  | .compiledEncoding => p.compiledEncoding
  | .decodeEntryPrefix => p.decodeEntryPrefix
  | .encodeEntryPrefix => p.encodeEntryPrefix
  | .decodeIncludeSuffix => p.decodeIncludeSuffix
  | .encodeIncludeSuffix => p.encodeIncludeSuffix

def set (p : Profile) (k : Key) (s : String) : Profile :=
  match k with
  | .rawEncoding => { p with rawEncoding := s }
  | .compiledEncoding => { p with compiledEncoding := s }
  | .decodeEntryPrefix => { p with decodeEntryPrefix := s }
  | .encodeEntryPrefix => { p with encodeEntryPrefix := s }
  | .decodeIncludeSuffix => { p with decodeIncludeSuffix := s }
  | .encodeIncludeSuffix => { p with encodeIncludeSuffix := s }

theorem get_set_self (p : Profile) (k : Key) (s : String) : (p.set k s).get k = s := by cases k <;> rfl

theorem get_set_of_ne (p : Profile) {k l : Key} (s : String) (h : l ≠ k) : (p.set k s).get l = p.get l := by
  cases k <;> cases l <;> first | rfl | exact absurd rfl h

/-! ## Sound profiles -/

/-- Why a profile would make generated code ambiguous. -/
inductive Flaw where
  | emptyDirective
  | sharedDirective (directive : String)
  | emptyPrefix
  | sharedSuffix
deriving DecidableEq

def Flaw.message : Flaw → String
  | .emptyDirective => "encoding directives must not be empty"
  | .sharedDirective d => s!"raw and compiled encoding share the directive '{d}'"
  | .emptyPrefix => "codec entry point prefixes must not be empty"
  | .sharedSuffix => "decoder and encoder headers must have distinct suffixes"

/-- The first flaw of a profile. -/
def flaw? (p : Profile) : Option Flaw :=
  if p.rawEncoding = "" ∨ p.compiledEncoding = "" then some .emptyDirective
  else if p.rawEncoding = p.compiledEncoding then some (.sharedDirective p.rawEncoding)
  else if p.decodeEntryPrefix = "" ∨ p.encodeEntryPrefix = "" then some .emptyPrefix
  else if p.decodeIncludeSuffix = p.encodeIncludeSuffix then some .sharedSuffix
  else none

end Profile
end ServiceSchema
