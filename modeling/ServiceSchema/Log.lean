import ServiceSchema.SchemaError
import ServiceSchema.Service
import ServiceSchema.Text.Terminal

/-! # Logs
What is worth telling on the way. Warnings and errors are always shown, the rest on demand. A computation
that may fail keeps what it logged before it failed. -/
namespace ServiceSchema

inductive LogLevel where
  | error
  | warn
  | info
  | debug
deriving DecidableEq

namespace LogLevel

def name : LogLevel → String
  | .error => "ERROR"
  | .warn => "WARN"
  | .info => "INFO"
  | .debug => "DEBUG"

/-- How verbose a program has to be to show the level. -/
def verbosity : LogLevel → Nat
  | .error | .warn => 0
  | .info => 1
  | .debug => 2

end LogLevel

inductive LogEvent where
  | starting (version : String)
  | loadedProfile (path : String)
  | loadedSchema (path : String)
  | ignoredDefault (path : EntryPath)
  | assembled (service : Service)
  | schemaPassed (path : String) (className : String)
  | schemaFailed (path : String) (error : SchemaError)
  | schemasFailed (failed total : Nat)
  | wroteRecord (schema out : String)
  | wroteDescriptor (out : String) (cborBytes : Nat)
  | stopped (error : OperationalError)
deriving DecidableEq

namespace LogEvent

def level : LogEvent → LogLevel
  | .starting _ | .loadedSchema _ | .assembled _ | .schemaPassed _ _ => .debug
  | .loadedProfile _ | .wroteRecord _ _ | .wroteDescriptor _ _ => .info
  | .ignoredDefault _ => .warn
  | .schemaFailed _ _ | .schemasFailed _ _ | .stopped _ => .error

def message : LogEvent → String
  | .starting version => s!"xbot-codegen v{version} starting"
  | .loadedProfile _ => "loaded codec profile"
  | .loadedSchema _ => "loaded service schema"
  | .ignoredDefault _ => "ignoring default value; only registers carry defaults"
  | .assembled _ => "assembled service"
  | .schemaPassed _ _ => "schema ok"
  | .schemaFailed path e => s!"{path}: {e.message}"
  | .schemasFailed failed total => s!"{failed} of {total} schema(s) failed to compile"
  | .wroteRecord _ _ => "wrote IR"
  | .wroteDescriptor _ _ => "wrote embedded descriptor"
  | .stopped e => e.message

/-- What goes with a message, in this order. -/
def fields : LogEvent → List (String × String)
  | .loadedProfile path | .loadedSchema path => [("path", path)]
  | .ignoredDefault path => [("path", path.render)]
  | .assembled s =>
    [("service_type", s.serviceType), ("version", toString s.version.toNat),
      ("inputs", toString s.inputs.length), ("outputs", toString s.outputs.length),
      ("registers", toString s.registers.length), ("includes", toString s.includes.size),
      ("cbor_bytes", toString s.cbor.length)]
  | .schemaPassed path className => [("schema", path), ("class", Text.quoted className)]
  | .schemaFailed _ e => [("kind", Text.quoted e.kind)]
  | .wroteRecord schema out => [("schema", schema), ("out", out)]
  | .wroteDescriptor out cborBytes => [("out", out), ("cbor_bytes", toString cborBytes)]
  | .starting _ | .schemasFailed _ _ | .stopped _ => []

/-- The message is made safe to show, fields are shown as they are. -/
def render (e : LogEvent) : String :=
  s!"{e.level.name} {Text.terminalSafe e.message}" ++ String.join (e.fields.map fun f => s!" {f.1}={f.2}")

def isShown (verbosity : Nat) (e : LogEvent) : Bool := e.level.verbosity ≤ verbosity

end LogEvent

/-- A result, and what was logged on the way to it. -/
structure Logged (ε α : Type) where
  log : List LogEvent
  result : Except ε α

namespace Logged

def ofExcept {ε α : Type} (result : Except ε α) : Logged ε α := ⟨[], result⟩

def tell {ε : Type} (log : List LogEvent) : Logged ε Unit := ⟨log, .ok ()⟩

def bind {ε α β : Type} (x : Logged ε α) (f : α → Logged ε β) : Logged ε β :=
  match x.result with
  | .error e => ⟨x.log, .error e⟩
  | .ok a => ⟨x.log ++ (f a).log, (f a).result⟩

instance {ε : Type} : Monad (Logged ε) where
  pure a := ⟨[], .ok a⟩
  bind := bind

def mapError {ε δ α : Type} (f : ε → δ) (x : Logged ε α) : Logged δ α :=
  ⟨x.log, x.result.mapError f⟩

end Logged
end ServiceSchema
