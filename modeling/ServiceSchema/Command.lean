import ServiceSchema.Compiler
import ServiceSchema.FileSystem
import ServiceSchema.Service.Record
import ServiceSchema.Text.Utf8

/-! # Commands
Writing the records of services, checking schemas, and writing the embedded descriptor of one. A schema that
does not compile fails alone; a file that cannot be written stops the command. -/
namespace ServiceSchema
open ServiceSchema.Json

/-- What a command shows, and how it ends: with an exit code, or because it cannot go on. -/
structure Outcome where
  stdout : String
  log : List LogEvent
  ending : Except OperationalError UInt8

namespace Outcome

/-- What went before an outcome. -/
def after (log : List LogEvent) (stdout : String) (o : Outcome) : Outcome :=
  { o with stdout := stdout ++ o.stdout, log := log ++ o.log }

end Outcome

inductive Command where
  | records (schemas : List String) (outputDir : Option String) (compact : Bool)
  | check (schemas : List String) (json : Bool)
  | embed (schema : String) (json : Bool) (output : Option String)
deriving DecidableEq

variable {m : Type → Type} [Monad m] [FileSystem m]

/-- Reads a file as text. -/
def readText (path : String) : m (Except FileFault String) := do
  match ← FileSystem.read path with
  | .error fault => return .error fault
  | .ok bytes =>
    match Utf8.decode? bytes with
    | some cs => return .ok (String.ofList cs)
    | none => return .error .notText

def writeText (path text : String) : m (Except FileFault Unit) :=
  FileSystem.write path (Utf8.encode text.toList)

/-! ## Schemas and profiles -/

def compileText (p : Profile) (path text : String) : Logged SchemaError Service := do
  let value ← .ofExcept (readSchema path text)
  .tell [.loadedSchema path]
  (compile p value).mapError .compile

def compileFile (p : Profile) (path : String) : m (Logged SchemaError Service) := do
  match ← readText path with
  | .error fault => return .ofExcept (.error (.unreadable path fault))
  | .ok text => return compileText p path text

/-- The profile in a file, or else the standard one. -/
def loadProfile : Option String → m (Logged OperationalError Profile)
  | none => return pure .standard
  | some path => do
    match ← readText path with
    | .error fault => return .ofExcept (.error (.profile path (.unreadable fault)))
    | .ok text =>
      match Profile.read text with
      | .error fault => return .ofExcept (.error (.profile path (.malformed fault)))
      | .ok p => return ⟨[.loadedProfile path], .ok p⟩

/-! ## Records -/

/-- What a list of schemas came to. -/
structure RecordRun where
  stdout : String
  log : List LogEvent
  failed : Nat
  fault : Option OperationalError

namespace RecordRun

def after (log : List LogEvent) (stdout : String) (failed : Nat) (r : RecordRun) : RecordRun :=
  { r with stdout := stdout ++ r.stdout, log := log ++ r.log, failed := failed + r.failed }

/-- How the run of so many schemas ends. -/
def outcome (r : RecordRun) (total : Nat) : Outcome :=
  match r.fault with
  | some e => ⟨r.stdout, r.log, .error e⟩
  | none =>
    if r.failed = 0 then ⟨r.stdout, r.log, .ok 0⟩
    else ⟨r.stdout, r.log ++ [.schemasFailed r.failed total], .ok 1⟩

end RecordRun

def recordName (s : Service) : String := s.className ++ ".ir.json"

def recordSchemas (p : Profile) (outputDir : Option String) (compact : Bool) : List String → m RecordRun
  | [] => return ⟨"", [], 0, none⟩
  | path :: rest => do
    let compiled ← compileFile p path
    match compiled.result with
    | .error e =>
      let run ← recordSchemas p outputDir compact rest
      return run.after (compiled.log ++ [.schemaFailed path e]) "" 1
    | .ok s =>
      let text := s.render compact ++ "\n"
      match outputDir with
      | none =>
        let run ← recordSchemas p outputDir compact rest
        return run.after compiled.log text 0
      | some dir =>
        let out := Path.join dir (recordName s)
        match ← writeText out text with
        | .error fault => return ⟨"", compiled.log, 0, some (.write out fault)⟩
        | .ok () =>
          let run ← recordSchemas p outputDir compact rest
          return run.after (compiled.log ++ [.wroteRecord path out]) "" 0

def writeRecords (p : Profile) (schemas : List String) (outputDir : Option String) (compact : Bool) :
    m Outcome := do
  let made ← match outputDir with
    | some dir => do
      match ← FileSystem.makeDirectories (m := m) dir with
      | .ok () => pure none
      | .error fault => pure (some (OperationalError.makeDirectory dir fault))
    | none => pure none
  match made with
  | some e => return ⟨"", [], .error e⟩
  | none => return (← recordSchemas p outputDir compact schemas).outcome schemas.length

/-! ## Reports -/

structure Failure where
  schema : String
  error : SchemaError
deriving DecidableEq

structure Report where
  total : Nat
  passed : Nat
  failures : List Failure
  log : List LogEvent

namespace Report

def Failure.record (f : Failure) : Value :=
  .object [("schema", .string f.schema), ("kind", .string f.error.kind), ("message", .string f.error.message)]

def record (r : Report) : Value :=
  .object [("total", .number (.ofWord r.total.toUInt64)), ("passed", .number (.ofWord r.passed.toUInt64)),
    ("failures", .array (r.failures.map Failure.record))]

def text (r : Report) : String :=
  String.join (r.failures.map fun f => s!"  FAIL: {f.schema}: {f.error.message}\n")
    ++ s!"Schemas: {r.passed}/{r.total} passed"

end Report

/-- Checks schemas of a batch that has `total` in all. -/
def checkEach (p : Profile) (total : Nat) : List String → m Report
  | [] => return ⟨total, 0, [], []⟩
  | path :: rest => do
    let compiled ← compileFile p path
    let report ← checkEach p total rest
    match compiled.result with
    | .ok s =>
      let log := compiled.log ++ .schemaPassed path s.className :: report.log
      return { report with passed := report.passed + 1, log }
    | .error e => return { report with failures := ⟨path, e⟩ :: report.failures, log := compiled.log ++ report.log }

def checkSchemas (p : Profile) (schemas : List String) : m Report := checkEach p schemas.length schemas

def showReport (p : Profile) (schemas : List String) (json : Bool) : m Outcome := do
  let report ← checkSchemas p schemas
  let text := if json then report.record.pretty else report.text
  return ⟨text ++ "\n", report.log, .ok (if report.failures = [] then 0 else 1)⟩

/-! ## Descriptors -/

def writeDescriptor (p : Profile) (schema : String) (json : Bool) (output : Option String) : m Outcome := do
  let compiled ← compileFile p schema
  match compiled.result with
  | .error e => return ⟨"", compiled.log ++ [.schemaFailed schema e], .ok 1⟩
  | .ok s =>
    let text := (if json then s.json else s.cArray) ++ "\n"
    match output with
    | none => return ⟨text, compiled.log, .ok 0⟩
    | some out =>
      match ← writeText out text with
      | .error fault => return ⟨"", compiled.log, .error (.write out fault)⟩
      | .ok () => return ⟨"", compiled.log ++ [.wroteDescriptor out s.cbor.length], .ok 0⟩

def Command.run (p : Profile) : Command → m Outcome
  | .records schemas outputDir compact => writeRecords p schemas outputDir compact
  | .check schemas json => showReport p schemas json
  | .embed schema json output => writeDescriptor p schema json output

/-! ## Invocations -/

def version : String := "0.1.0"

structure Invocation where
  verbosity : Nat
  profile : Option String
  command : Command
deriving DecidableEq

/-- What a process shows on its way to an exit code. -/
structure Exit where
  code : UInt8
  stdout : String
  log : List LogEvent
deriving DecidableEq

/-- A command that cannot go on says so last. -/
def Outcome.exit (o : Outcome) : Exit :=
  match o.ending with
  | .ok code => ⟨code, o.stdout, o.log⟩
  | .error e => ⟨2, o.stdout, o.log ++ [.stopped e]⟩

/-- Loads the profile and then runs the command. -/
def Invocation.run (i : Invocation) : m Exit := do
  let loaded ← loadProfile i.profile
  let log := .starting version :: loaded.log
  match loaded.result with
  | .error e => return (Outcome.mk "" log (.error e)).exit
  | .ok p => return ((← i.command.run p).after log "").exit

/-- The log as it is shown. -/
def Exit.shownLog (verbosity : Nat) (e : Exit) : List String :=
  (e.log.filter (·.isShown verbosity)).map LogEvent.render

end ServiceSchema
