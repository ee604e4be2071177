import ServiceSchema.Cbor.Encoder
import ServiceSchema.Json.Reader
import ServiceSchema.Log

/-! # Compiling documents
A document becomes a service if it has the shape of one, repeats no id within a category, and asks for a
possible kind in every entry. The checks are made in this order, categories and entries in theirs, and the
first that fails decides. -/
namespace ServiceSchema
open ServiceSchema.Json

/-! ## Ids -/

/-- The first id that has occurred before, `seen` ones included. -/
def firstRepeat (seen : List UInt16) : List UInt16 → Option UInt16
  | [] => none
  | id :: rest => if id ∈ seen then some id else firstRepeat (id :: seen) rest

def checkUnique (category : Category) (ids : List UInt16) : Except CompileError Unit :=
  match firstRepeat [] ids with
  | some id => .error (.duplicateId category id)
  | none => .ok ()

namespace Document

def checkIds (d : Document) : List Category → Except CompileError Unit
  | [] => .ok ()
  | category :: rest => do
    checkUnique category ((d.entries category).map Entry.id)
    d.checkIds rest

end Document

/-! ## Fields -/

/-- Only registers carry a default. -/
def Entry.defaultLiteral (category : Category) (e : Entry) : Option String :=
  if category = .register then e.default.map Value.compact else none

/-- What is told about a default that is not carried. -/
def Entry.warnings (category : Category) (index : Nat) (e : Entry) : List LogEvent :=
  if category ≠ .register ∧ e.default.isSome then [.ignoredDefault (e.path category index)] else []

def Field.ofEntry (category : Category) (e : Entry) (kind : FieldKind) : Field where
  category := category
  id := e.id
  rawName := e.name
  name := Identifier.derive e.name
  kind := kind
  callbackName := Identifier.callback category (Identifier.derive e.name)
  methodName := Identifier.method category (Identifier.derive e.name)
  default := e.defaultLiteral category

/-- Selects the kind of an entry, and takes the header that it needs in with those of the entries before. -/
def Entry.selectInto (p : Profile) (category : Category) (index : Nat) (e : Entry) (callback : String)
    (includes : Includes) : Except CompileError FieldKind × Includes :=
  match FieldKind.select p category e callback with
  | .ok kind => (.ok kind, includes.addKind kind)
  | .error fault => (.error (.ofEntry category index e fault), includes)

/-- The field of an entry, and the headers after it. -/
def assembleField (p : Profile) (category : Category) (index : Nat) (e : Entry) (includes : Includes) :
    Logged CompileError (Field × Includes) :=
  match e.selectInto p category index (Identifier.callback category (Identifier.derive e.name)) includes with
  | (.error error, _) => ⟨[], .error error⟩
  | (.ok kind, includes) => ⟨e.warnings category index, .ok (.ofEntry category e kind, includes)⟩

/-- The fields of the entries from position `index` on, and the headers after them. -/
def assembleFields (p : Profile) (category : Category) :
    Nat → List Entry → Includes → Logged CompileError (List Field × Includes)
  | _, [], includes => pure ([], includes)
  | index, e :: rest, includes => do
    let (field, includes) ← assembleField p category index e includes
    let (fields, includes) ← assembleFields p category (index + 1) rest includes
    return (field :: fields, includes)

/-- The fields of a category, with the headers that they need. -/
def assembleCategory (p : Profile) (category : Category) (entries : List Entry) :
    Logged CompileError (List Field × Includes) :=
  assembleFields p category 0 entries .empty

/-! ## Services -/

def assembleService (p : Profile) (value : Value) (d : Document) : Logged CompileError Service := do
  let (inputs, found) ← assembleCategory p .input d.inputs
  let includes := Includes.empty.merge found
  let (outputs, found) ← assembleCategory p .output d.outputs
  let includes := includes.merge found
  let (registers, found) ← assembleCategory p .register d.registers
  let includes := includes.merge found
  let service : Service := {
    serviceType := d.serviceType
    version := d.version
    inputs, outputs, registers, includes
    json := value.pretty
    cbor := Cbor.encode value }
  Logged.tell [.assembled service]
  return service

/-- The typed view of a document that keeps all rules but those of single entries. -/
def checkDocument (value : Value) : Except CompileError Document := do
  match Shape.firstViolation value with
  | some violation => throw (.shape violation)
  | none =>
    let d ← (Document.ofValue value).mapError .view
    d.checkIds Category.all
    return d

def compile (p : Profile) (value : Value) : Logged CompileError Service := do
  let d ← .ofExcept (checkDocument value)
  assembleService p value d

/-- Compiles under a profile that has not been checked yet. -/
def compileUnder (p : Profile) (value : Value) : Logged SchemaError Service :=
  match p.flaw? with
  | some flaw => ⟨[], .error (.profile "<config>" (.unsound flaw))⟩
  | none => (compile p value).mapError .compile

/-- Reads a schema; `origin` is its name in messages. -/
def readSchema (origin text : String) : Except SchemaError Value :=
  (Json.read text).mapError (.notJson origin)

/-- Reads a profile; `origin` is its name in messages. -/
def readProfile (origin text : String) : Except SchemaError Profile :=
  (Profile.read text).mapError fun fault => .profile origin (.malformed fault)

end ServiceSchema
