import ServiceSchema.Command

/-! # The command line
Arguments are read from left to right, and the first that has no place ends the reading. Two options may stand
before or after the name of the command, the others belong to one command each. -/
namespace ServiceSchema.CommandLine

inductive CommandName where
  | records
  | check
  | embed
deriving DecidableEq

namespace CommandName

def all : List CommandName := [.records, .check, .embed]

def spelling : CommandName → String
  | .records => "ir"
  | .check => "check"
  | .embed => "embed"

def ofSpelling? (s : String) : Option CommandName := all.find? fun c => c.spelling = s

end CommandName

/-- What has been read of the command: nothing, its name, or that it is about help, and perhaps on which. -/
inductive Topic where
  | none
  | command (name : CommandName)
  | help (named : Bool)
deriving DecidableEq

inductive Switch where
  | verbose
  | compact
  | json
  | help
  | version
deriving DecidableEq

inductive ValueOption where
  | config
  | outputDir
  | output
deriving DecidableEq

/-- Why reading stops. -/
inductive Stop where
  | help
  | version
  | usage
deriving DecidableEq

/-- Settings of one level: before the name of the command, or after it. -/
structure Level where
  verbose : Nat
  config : Option String
deriving DecidableEq

structure Draft where
  topic : Topic
  outer : Level
  inner : Level
  operands : List String
  outputDir : Option String
  output : Option String
  compact : Bool
  json : Bool
  /-- The option that waits for its value. -/
  pending : Option ValueOption
  /-- Options have ended. -/
  literal : Bool
deriving DecidableEq

namespace Draft

def empty : Draft := ⟨.none, ⟨0, none⟩, ⟨0, none⟩, [], none, none, false, false, none, false⟩

/-! ## Options -/

def isRecords (d : Draft) : Bool := d.topic = .command .records

def switch? (d : Draft) (name : String) : Option Switch :=
  if name = "verbose" then some .verbose
  else if name = "help" then some .help
  else if name = "version" ∧ d.topic = .none then some .version
  else if name = "compact" ∧ d.isRecords then some .compact
  else if name = "json" ∧ (d.topic = .command .check ∨ d.topic = .command .embed) then some .json
  else none

def valueOption? (d : Draft) (name : String) : Option ValueOption :=
  if name = "config" then some .config
  else if name = "output-dir" ∧ d.isRecords then some .outputDir
  else if name = "output" ∧ d.topic = .command .embed then some .output
  else none

def updateLevel (d : Draft) (f : Level → Level) : Draft :=
  if d.topic = .none then { d with outer := f d.outer } else { d with inner := f d.inner }

def level (d : Draft) : Level := if d.topic = .none then d.outer else d.inner

/-- Only `verbose` may be repeated. -/
def turnOn (d : Draft) : Switch → Except Stop Draft
  | .verbose => .ok (d.updateLevel fun l => { l with verbose := l.verbose + 1 })
  | .compact => if d.compact then .error .usage else .ok { d with compact := true }
  | .json => if d.json then .error .usage else .ok { d with json := true }
  | .help => .error .help
  | .version => .error .version

/-- A value is never empty, and an option has one value only. -/
def setValue (d : Draft) (o : ValueOption) (value : String) : Except Stop Draft :=
  if value = "" then .error .usage
  else
    let d := { d with pending := none }
    match o with
    | .config =>
      if d.level.config.isSome then .error .usage
      else .ok (d.updateLevel fun l => { l with config := some value })
    | .outputDir =>
      if d.outputDir.isSome then .error .usage else .ok { d with outputDir := some value }
    | .output => if d.output.isSome then .error .usage else .ok { d with output := some value }

/-- An option after two dashes: `name`, or `name=value`. -/
def long (d : Draft) (body : List Char) : Except Stop Draft :=
  let name := String.ofList (body.takeWhile (· ≠ '='))
  match d.switch? name, d.valueOption? name, body.dropWhile (· ≠ '=') with
  | some s, _, [] => d.turnOn s
  | none, some o, [] => .ok { d with pending := some o }
  | none, some o, _ :: value => d.setValue o (String.ofList value)
  | _, _, _ => .error .usage

/-- Options after one dash: switches, and then perhaps an option with its value. -/
def short (d : Draft) : List Char → Except Stop Draft
  | [] => .ok d
  | c :: cs =>
    if c = 'v' then do (← d.turnOn .verbose).short cs
    else if c = 'h' then .error .help
    else if c = 'V' ∧ d.topic = .none then .error .version
    else if c = 'o' ∧ d.topic = .command .embed then
      match cs with
      | [] => .ok { d with pending := some .output }
      | '=' :: value => d.setValue .output (String.ofList value)
      | value => d.setValue .output (String.ofList value)
    else .error .usage

/-! ## Operands -/

def operand (d : Draft) (arg : String) : Except Stop Draft :=
  match d.topic with
  | .none => .error .usage
  | .help _ => .error .usage
  | .command name =>
    if arg = "" ∨ (name = .embed ∧ d.operands ≠ []) then .error .usage
    else .ok { d with operands := d.operands ++ [arg] }

/-- The name of the command comes first of what is no option. -/
def word (d : Draft) (arg : String) : Except Stop Draft :=
  if d.topic = .none then
    match CommandName.ofSpelling? arg with
    | some name => .ok { d with topic := .command name }
    | none => if arg = "help" then .ok { d with topic := .help false } else .error .usage
  else d.operand arg

/-- Help is on one command at most, and what looks like an option names none. -/
def helpTopic (d : Draft) (named : Bool) (arg : String) : Except Stop Draft :=
  if !named ∧ ((CommandName.ofSpelling? arg).isSome ∨ arg = "help") then .ok { d with topic := .help true }
  else .error .usage

/-- Reads one argument. A value that looks like an option is none. -/
def step (d : Draft) (arg : String) : Except Stop Draft :=
  match d.topic, d.literal with
  | .help named, _ => d.helpTopic named arg
  | _, true => d.operand arg
  | _, false =>
    match d.pending, arg.toList with
    | none, ['-', '-'] => .ok { d with literal := true }
    | none, '-' :: '-' :: body => d.long body
    | none, '-' :: c :: body => d.short (c :: body)
    | none, _ => d.word arg
    | some _, '-' :: _ :: _ => .error .usage
    | some o, _ => d.setValue o arg

/-! ## Invocations -/

def command? (d : Draft) (name : CommandName) : Option Command :=
  match name, d.operands with
  | _, [] => none
  | .records, schemas => some (.records schemas d.outputDir d.compact)
  | .check, schemas => some (.check schemas d.json)
  | .embed, schema :: _ => some (.embed schema d.json d.output)

/-- What stands after the name of the command goes before what stands in front of it. -/
def finish (d : Draft) : Except Stop Invocation :=
  match d.pending, d.topic with
  | none, .help _ => .error .help
  | none, .command name =>
    match d.command? name with
    | some command =>
      let verbosity := if d.inner.verbose = 0 then d.outer.verbose else d.inner.verbose
      .ok ⟨verbosity, d.inner.config.or d.outer.config, command⟩
    | none => .error .usage
  | _, _ => .error .usage

end Draft

def read (args : List String) : Except Stop Invocation := do
  (← args.foldlM Draft.step Draft.empty).finish

/-- What is shown in place of a run. -/
def Stop.exit : Stop → Exit
  | .help => ⟨0, "Usage: xbot-codegen [-v]... [--config FILE] (ir | check | embed) ...\n", []⟩
  | .version => ⟨0, "xbot-codegen " ++ ServiceSchema.version ++ "\n", []⟩
  | .usage => ⟨2, "", []⟩

/-- Runs the program: its standard output, its exit code and the log that it shows. -/
def run {m : Type → Type} [Monad m] [FileSystem m] (args : List String) : m (Exit × List String) := do
  match read args with
  | .error stop => return (stop.exit, [])
  | .ok invocation =>
    let exit ← invocation.run
    return (exit, exit.shownLog invocation.verbosity)

end ServiceSchema.CommandLine
