import ServiceSchema.FieldKind
import ServiceSchema.FileTree.Fault
import ServiceSchema.Json.Fault
import ServiceSchema.Profile.Reader
import ServiceSchema.Shape

/-! # Errors
Everything that can be wrong with a schema or a profile, with its kind and its message. -/
namespace ServiceSchema

/-- Why a document does not compile. -/
inductive CompileError where
  | shape (violation : Shape.Violation)
  | view (fault : Document.Fault)
  | duplicateId (category : Category) (id : UInt16)
  | illegalType (path : EntryPath) (declared : String) (reason : TypeError)
  | illegalEncoding (path : EntryPath) (directive : Option String) (reason : EncodingFault)
deriving DecidableEq

namespace CompileError

def kind : CompileError → String
  | .shape _ | .view _ => "MalformedSchemaError"
  | .duplicateId _ _ => "DuplicateIdError"
  | .illegalType _ _ _ => "IllegalTypeError"
  | .illegalEncoding _ _ _ => "IllegalEncodingError"

def message : CompileError → String
  | .shape v => s!"malformed schema at {v.location}: {v.message}"
  | .view f => s!"malformed schema at {f.location}: {f.message}"
  | .duplicateId category id => s!"duplicate id {id.toNat} in {category.key}"
  | .illegalType path declared reason => s!"illegal data type '{declared}' at {path.render}: {reason.message}"
  | .illegalEncoding path directive reason =>
    "illegal encoding '" ++ directive.getD "" ++ s!"' at {path.render}: {reason.message}"

/-- What is wrong with an entry that has no kind. -/
def ofEntry (category : Category) (index : Nat) (e : Entry) : FieldKind.Fault → CompileError
  | .type reason => .illegalType (e.path category index) e.declaredType reason
  | .encoding reason => .illegalEncoding (e.path category index) e.encoding reason

end CompileError

/-- Why there is no profile. -/
inductive ProfileError where
  | unreadable (fault : FileFault)
  | unsound (flaw : Profile.Flaw)
  | malformed (fault : Profile.ReadFault)
deriving DecidableEq

def ProfileError.message : ProfileError → String
  | .unreadable fault => "cannot read file: " ++ fault.message
  | .unsound flaw => flaw.message
  | .malformed fault => fault.message

inductive SchemaError where
  | unreadable (origin : String) (fault : FileFault)
  | notJson (origin : String) (error : Json.SyntaxError)
  | compile (error : CompileError)
  | profile (origin : String) (error : ProfileError)
deriving DecidableEq

namespace SchemaError

def kind : SchemaError → String
  | .unreadable _ _ | .notJson _ _ => "SchemaReadError"
  | .compile e => e.kind
  | .profile _ _ => "ConfigError"

def message : SchemaError → String
  | .unreadable origin fault => s!"cannot read schema '{origin}': cannot read file: {fault.message}"
  | .notJson origin e => s!"cannot read schema '{origin}': invalid JSON: {e.message}"
  | .compile e => e.message
  | .profile origin e => s!"invalid configuration '{origin}': {e.message}"

end SchemaError

/-- Why a command cannot go on. -/
inductive OperationalError where
  | profile (path : String) (error : ProfileError)
  | makeDirectory (path : String) (fault : FileFault)
  | write (path : String) (fault : FileFault)
deriving DecidableEq

def OperationalError.message : OperationalError → String
  | .profile path e => s!"failed to load configuration {path}: invalid configuration '{path}': {e.message}"
  | .makeDirectory path fault => s!"failed to create output directory {path}: {fault.message}"
  | .write path fault => s!"failed to write {path}: {fault.message}"

end ServiceSchema
