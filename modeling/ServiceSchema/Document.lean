import ServiceSchema.Category
import ServiceSchema.Json.Printer
import ServiceSchema.Text.Quoted

/-! # Service documents
The typed view of a document. It is read without regard to the shape rules: entry by entry, so that a fault
names the entry it is in. An integral double stands for its integer, and an encoding of null for none. -/
namespace ServiceSchema
open ServiceSchema.Json

/-- An entry of a category. A default of null is a default all the same. -/
structure Entry where
  id : UInt16
  name : String
  declaredType : String
  encoding : Option String
  default : Option Value
deriving DecidableEq

structure Document where
  serviceType : String
  version : UInt32
  inputs : List Entry
  outputs : List Entry
  registers : List Entry
deriving DecidableEq

/-- Where an entry stands, for messages. -/
structure EntryPath where
  category : Category
  index : Nat
  name : String
deriving DecidableEq

def EntryPath.render (p : EntryPath) : String := s!"{p.category.key}[{p.index}] ({Text.quoted p.name})"

def Entry.path (e : Entry) (category : Category) (index : Nat) : EntryPath := ⟨category, index, e.name⟩

namespace Document

def entries (d : Document) : Category → List Entry
  | .input => d.inputs
  | .output => d.outputs
  | .register => d.registers

/-- Why a value is no entry. -/
inductive EntryFault where
  | notEntry (found : Value)
  | notNumber (found : Value)
  | notString (found : Value)
  | idOutOfRange (n : Number)
  | missing (key : String)
  | tooShort (length : Nat)
  | tooLong (length : Nat)
deriving DecidableEq

/-- Why a value is no service document. -/
inductive Fault where
  | notObject
  | badType
  | badVersion
  | notArray (category : Category)
  | entry (category : Category) (index : Nat) (fault : EntryFault)
deriving DecidableEq

/-! ## Entries -/

def readId : Value → Except EntryFault UInt16
  | .number n =>
    match n.toUnsigned? with
    | some id => if id < 0x10000 then .ok (.ofNat id) else .error (.idOutOfRange n)
    | none => .error (.idOutOfRange n)
  | v => .error (.notNumber v)

def readString : Value → Except EntryFault String
  | .string s => .ok s
  | v => .error (.notString v)

def readEncoding : Value → Except EntryFault (Option String)
  | .null => .ok none
  | v => (readString v).map some

/-- The keys are looked at in their order; that one is missing shows only after that. -/
def readObject (ms : Members) : Except EntryFault Entry := do
  let default := Members.get? "default" ms
  let encoding ← match Members.get? "encoding" ms with
    | some v => readEncoding v
    | none => .ok none
  let id ← (Members.get? "id" ms).mapM readId
  let name ← (Members.get? "name" ms).mapM readString
  let declaredType ← (Members.get? "type" ms).mapM readString
  match id, name, declaredType with
  | some id, some name, some declaredType => return ⟨id, name, declaredType, encoding, default⟩
  | none, _, _ => throw (.missing "id")
  | _, none, _ => throw (.missing "name")
  | _, _, none => throw (.missing "type")

/-- An entry may also be a list of its values; the last two may be left out. -/
def readList (vs : List Value) : Except EntryFault Entry := do
  let id ← match vs[0]? with
    | some v => readId v
    | none => throw (.tooShort 0)
  let name ← match vs[1]? with
    | some v => readString v
    | none => throw (.tooShort 1)
  let declaredType ← match vs[2]? with
    | some v => readString v
    | none => throw (.tooShort 2)
  let encoding ← match vs[3]? with
    | some v => readEncoding v
    | none => .ok none
  if 5 < vs.length then throw (.tooLong vs.length)
  return ⟨id, name, declaredType, encoding, vs[4]?⟩

def readEntry : Value → Except EntryFault Entry
  | .object ms => readObject ms
  | .array vs => readList vs
  | v => .error (.notEntry v)

/-! ## Documents -/

/-- The entries of a list, from position `i` on. -/
def readEntries (category : Category) : Nat → List Value → Except Fault (List Entry)
  | _, [] => .ok []
  | i, v :: vs =>
    match readEntry v with
    | .error e => .error (.entry category i e)
    | .ok e => (readEntries category (i + 1) vs).map (e :: ·)

/-- Only registers may be left out, or be null. -/
def readCategory (ms : Members) (category : Category) : Except Fault (List Entry) :=
  match Members.get? category.key ms with
  | some (.array vs) => readEntries category 0 vs
  | none | some .null => if category = .register then .ok [] else .error (.notArray category)
  | _ => .error (.notArray category)

def readVersion (ms : Members) : Except Fault UInt32 :=
  match Members.get? "version" ms with
  | some (.number n) =>
    match n.toUnsigned? with
    | some v => if v < 0x100000000 then .ok (.ofNat v) else .error .badVersion
    | none => .error .badVersion
  | _ => .error .badVersion

def ofValue : Value → Except Fault Document
  | .object ms => do
    let serviceType ← match Members.get? "type" ms with
      | some (.string s) => .ok s
      | _ => .error .badType
    let version ← readVersion ms
    let inputs ← readCategory ms .input
    let outputs ← readCategory ms .output
    let registers ← readCategory ms .register
    return ⟨serviceType, version, inputs, outputs, registers⟩
  | _ => .error .notObject

/-! ## Messages -/

def describe : Value → String
  | .null => "null"
  | .bool b => s!"boolean `{b}`"
  | .number (.integer n _) => s!"integer `{n}`"
  | .number (.double x) => s!"floating point `{String.ofList x.print}`"
  | .string s => s!"string {Text.quoted s}"
  | .array _ => "sequence"
  | .object _ => "map"

def EntryFault.message : EntryFault → String
  | .notEntry v => s!"invalid type: {describe v}, expected struct FieldDocument"
  | .notNumber v => s!"invalid type: {describe v}, expected a JSON number"
  | .notString v => s!"invalid type: {describe v}, expected a string"
  | .idOutOfRange n => s!"id {(Value.number n).compact} is not an integer in 0..=65535"
  | .missing key => s!"missing field `{key}`"
  | .tooShort n => s!"invalid length {n}, expected struct FieldDocument with 5 elements"
  | .tooLong n => s!"invalid length {n}, expected fewer elements in array"

def Fault.location : Fault → String
  | .notObject => "(root)"
  | .badType => "type"
  | .badVersion => "version"
  | .notArray category => category.key
  | .entry category i _ => s!"{category.key}[{i}]"

def Fault.message : Fault → String
  | .notObject => "expected a JSON object"
  | .badType => "expected a string"
  | .badVersion => "expected an integer in 0..=4294967295"
  | .notArray _ => "expected an array"
  | .entry _ _ e => e.message

end Document
end ServiceSchema
