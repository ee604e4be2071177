import ServiceSchema.Codec
import ServiceSchema.DeclaredType
import ServiceSchema.Document
import ServiceSchema.Encoding
import ServiceSchema.Includes

/-! # Kinds of fields
A raw scalar, a raw array, or a value with a compiled codec: there are no compiled arrays, and no compiled
registers. What an entry asks for selects its kind. -/
namespace ServiceSchema

inductive FieldKind where
  | scalar (type : Scalar)
  | array (element : Scalar) (maxLength : UInt32)
  | compiled (codec : Codec)
deriving DecidableEq

namespace FieldKind

def typeName : FieldKind → String
  | .scalar t => t.name
  | .array t _ => t.name
  | .compiled c => c.type

def isArray : FieldKind → Bool
  | .array _ _ => true
  | _ => false

def maxLength? : FieldKind → Option UInt32
  | .array _ n => some n
  | _ => none

def encoding : FieldKind → Encoding
  | .compiled _ => .compiled
  | _ => .raw

def codec? : FieldKind → Option Codec
  | .compiled c => some c
  | _ => none

def ofType : DeclaredType → FieldKind
  | .scalar t => .scalar t
  | .array t n => .array t n

/-! ## Selection -/

/-- Why an entry has no kind. -/
inductive Fault where
  | encoding (fault : EncodingFault)
  | type (error : TypeError)
deriving DecidableEq

/-- The codec of a type in a category; registers have none. -/
def codecFor (p : Profile) (category : Category) (id : UInt16) (callback type : String) :
    Option Codec :=
  match category with
  | .input =>
    some ⟨type, p.decodeEntryPrefix ++ type, "\"" ++ type ++ p.decodeIncludeSuffix ++ "\"",
      .decode callback⟩
  | .output =>
    some ⟨type, p.encodeEntryPrefix ++ type, "\"" ++ type ++ p.encodeIncludeSuffix ++ "\"", .encode id⟩
  | .register => none

def selectRaw (e : Entry) : Except Fault FieldKind :=
  match DeclaredType.resolve e.declaredType with
  | .ok t => .ok (ofType t)
  | .error error => .error (.type error)

def selectCompiled (p : Profile) (category : Category) (e : Entry) (callback : String) :
    Except Fault FieldKind :=
  if e.declaredType.toList.contains '[' then .error (.encoding .compiledArray)
  else
    match checkCodecType e.declaredType with
    | .error error => .error (.type error)
    | .ok type =>
      match codecFor p category e.id callback type with
      | some c => .ok (.compiled c)
      | none => .error (.encoding .compiledRegister)

def select (p : Profile) (category : Category) (e : Entry) (callback : String) :
    Except Fault FieldKind :=
  match Encoding.ofDirective p e.encoding with
  | .error fault => .error (.encoding fault)
  | .ok .raw => selectRaw e
  | .ok .compiled => selectCompiled p category e callback

end FieldKind

/-- With the header that a field of this kind needs. -/
def Includes.addKind (i : Includes) (k : FieldKind) : Includes :=
  match k.codec? with
  | some c => i.insert c.header
  | none => i

end ServiceSchema
