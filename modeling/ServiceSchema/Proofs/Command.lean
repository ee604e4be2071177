import ServiceSchema.Command
import ServiceSchema.Proofs.FileTree.Directories

/-! # Commands in a file tree
What commands do with the files around them, told without the state that is threaded through. The schemas of a batch
have their turns one after the other, each in the files that the ones before it left. -/
namespace ServiceSchema

variable {p : Profile} {outputDir : Option String} {compact : Bool} {t t' t₁ : FileTree} {path : String}
  {schemas rest : List String} {s : Service} {e : SchemaError}

/-! ## Schemas -/

namespace FileTree

def text (t : FileTree) (path : String) : Except FileFault String :=
  match t.read path with
  | .error fault => .error fault
  | .ok bytes =>
    match Utf8.decode? bytes with
    | some cs => .ok (String.ofList cs)
    | none => .error .notText

def schema (t : FileTree) (p : Profile) (path : String) : Logged SchemaError Service :=
  match t.text path with
  | .error fault => .ofExcept (.error (.unreadable path fault))
  | .ok text => compileText p path text

def compiled (t : FileTree) (p : Profile) (path : String) : Except SchemaError Service :=
  (compileFile (m := StateM FileTree) p path t).1.result

end FileTree

theorem readText_tree (t : FileTree) (path : String) : readText (m := StateM FileTree) path t = (t.text path, t) := by
  simp only [readText, FileTree.text, bind, StateT.bind, FileSystem.read]
  cases t.read path with
  | error fault => rfl
  | ok bytes =>
    simp only
    cases Utf8.decode? bytes <;> rfl

/-- Compiling a schema changes no file. -/
theorem compileFile_tree (t : FileTree) (p : Profile) (path : String) :
    compileFile (m := StateM FileTree) p path t = (t.schema p path, t) := by
  simp only [compileFile, FileTree.schema, bind, StateT.bind, readText_tree]
  cases t.text path <;> rfl

namespace FileTree

theorem compiled_eq (t : FileTree) (p : Profile) (path : String) : t.compiled p path = (t.schema p path).result := by
  rw [compiled, compileFile_tree]

theorem exists_read_of_compiled (h : t.compiled p path = .ok s) : ∃ content, t.read path = .ok content := by
  cases hread : t.read path with
  | ok content => exact ⟨content, rfl⟩
  | error fault =>
    rw [compiled_eq, schema, text, hread] at h
    cases h

theorem compiled_congr (h : t'.read path = t.read path) : t'.compiled p path = t.compiled p path := by
  rw [compiled_eq, compiled_eq, schema, schema, text, text, h]

end FileTree

/-- The file of a schema without entries. -/
def schemaFile (type : String) : FileItem :=
  .file (Utf8.encode ("\x7b\"type\":\"" ++ type ++ "\",\"version\":1,\"inputs\":[],\"outputs\":[]\x7d").toList)

def lamps (first second : String) : FileTree :=
  ⟨[(["a.json"], schemaFile first), (["b.json"], schemaFile second)], []⟩

/-! ## Turns -/

def Service.recordFile (s : Service) (compact : Bool) : List UInt8 := Utf8.encode (s.render compact ++ "\n").toList

namespace FileTree

/-- The files with the record of a service in the output directory, if there is one. -/
def keepRecord (t : FileTree) (outputDir : Option String) (compact : Bool) (s : Service) :
    Except FileFault FileTree :=
  match outputDir with
  | none => .ok t
  | some dir => t.written (Path.join dir (recordName s)) (s.recordFile compact)

/-- The schemas of a batch with what they compile to, each at its turn. A record that cannot be kept ends the batch. -/
def turns (p : Profile) (outputDir : Option String) (compact : Bool) :
    FileTree → List String → List (String × Except SchemaError Service)
  | _, [] => []
  | t, path :: rest =>
    match t.compiled p path with
    | .error e => (path, .error e) :: turns p outputDir compact t rest
    | .ok s =>
      match t.keepRecord outputDir compact s with
      | .error _ => [(path, .ok s)]
      | .ok t' => (path, .ok s) :: turns p outputDir compact t' rest

theorem turns_failed (h : t.compiled p path = .error e) (rest : List String) :
    t.turns p outputDir compact (path :: rest) = (path, .error e) :: t.turns p outputDir compact rest := by
  rw [turns, h]

theorem turns_stuck {fault : FileFault} (h : t.compiled p path = .ok s)
    (hkept : t.keepRecord outputDir compact s = .error fault) (rest : List String) :
    t.turns p outputDir compact (path :: rest) = [(path, .ok s)] := by
  simp only [turns, h, hkept]

theorem turns_kept (h : t.compiled p path = .ok s) (hkept : t.keepRecord outputDir compact s = .ok t₁)
    (rest : List String) :
    t.turns p outputDir compact (path :: rest) = (path, .ok s) :: t₁.turns p outputDir compact rest := by
  simp only [turns, h, hkept]

/-- What one turn preserves, a batch preserves. -/
theorem batch_induction (p : Profile) (outputDir : Option String) (compact : Bool)
    {motive : FileTree → List String → Prop} (nil : ∀ t, motive t [])
    (failed : ∀ {t path e}, t.compiled p path = .error e → ∀ rest, motive t rest → motive t (path :: rest))
    (stuck : ∀ {t path s fault}, t.compiled p path = .ok s → t.keepRecord outputDir compact s = .error fault →
      ∀ rest, motive t (path :: rest))
    (kept : ∀ {t path s t₁}, t.compiled p path = .ok s → t.keepRecord outputDir compact s = .ok t₁ →
      ∀ rest, motive t₁ rest → motive t (path :: rest))
    (t : FileTree) (schemas : List String) : motive t schemas := by
  induction schemas generalizing t with
  | nil => exact nil t
  | cons path rest ih =>
    cases hcompiled : t.compiled p path with
    | error e => exact failed hcompiled rest (ih t)
    | ok s =>
      cases hkept : t.keepRecord outputDir compact s with
      | error fault => exact stuck hcompiled hkept rest
      | ok t₁ => exact kept hcompiled hkept rest (ih t₁)

end FileTree

/-! ## Batches -/

def batch (p : Profile) (outputDir : Option String) (compact : Bool) (t : FileTree) (schemas : List String) :
    RecordRun × FileTree :=
  recordSchemas (m := StateM FileTree) p outputDir compact schemas t

/-- What is shown of a record that goes nowhere else. -/
def Service.shown (s : Service) (outputDir : Option String) (compact : Bool) : String :=
  match outputDir with
  | none => s.render compact ++ "\n"
  | some _ => ""

def Service.logged (s : Service) (outputDir : Option String) (path : String) : List LogEvent :=
  match outputDir with
  | none => []
  | some dir => [.wroteRecord path (Path.join dir (recordName s))]

/-- A schema that fails leaves the files to the ones after it as they are. -/
theorem batch_failed (h : t.compiled p path = .error e) (rest : List String) :
    batch p outputDir compact t (path :: rest)
      = ((batch p outputDir compact t rest).1.after ((t.schema p path).log ++ [.schemaFailed path e]) "" 1,
          (batch p outputDir compact t rest).2) := by
  rw [FileTree.compiled_eq] at h
  simp only [batch, recordSchemas, bind, StateT.bind, compileFile_tree, h]
  rfl

theorem batch_kept (h : t.compiled p path = .ok s) (hkept : t.keepRecord outputDir compact s = .ok t₁)
    (rest : List String) :
    batch p outputDir compact t (path :: rest)
      = ((batch p outputDir compact t₁ rest).1.after ((t.schema p path).log ++ s.logged outputDir path)
            (s.shown outputDir compact) 0,
          (batch p outputDir compact t₁ rest).2) := by
  rw [FileTree.compiled_eq] at h
  cases outputDir with
  | none =>
    cases hkept
    simp only [batch, recordSchemas, bind, StateT.bind, compileFile_tree, h, Service.logged, List.append_nil]
    rfl
  | some dir =>
    rw [FileTree.keepRecord, Service.recordFile] at hkept
    simp only [batch, recordSchemas, bind, StateT.bind, compileFile_tree, h, writeText, FileSystem.write,
      FileTree.write_eq_written, hkept]
    rfl

/-- A record that cannot be kept leaves the files as they are, and ends the batch. -/
theorem batch_stuck {fault : FileFault} (h : t.compiled p path = .ok s)
    (hkept : t.keepRecord outputDir compact s = .error fault) (rest : List String) :
    ∃ e, batch p outputDir compact t (path :: rest) = (⟨"", (t.schema p path).log, 0, some e⟩, t) := by
  rw [FileTree.compiled_eq] at h
  cases outputDir with
  | none => cases hkept
  | some dir =>
    rw [FileTree.keepRecord, Service.recordFile] at hkept
    refine ⟨.write (Path.join dir (recordName s)) fault, ?_⟩
    simp only [batch, recordSchemas, bind, StateT.bind, compileFile_tree, h, writeText, FileSystem.write,
      FileTree.write_eq_written, hkept]
    rfl

open FileTree

/-- If all records are kept, every schema has its turn. -/
theorem turns_of_batch (hfault : (batch p outputDir compact t schemas).1.fault = none) :
    (t.turns p outputDir compact schemas).map Prod.fst = schemas := by
  induction t, schemas using batch_induction p outputDir compact with
  | nil t => rfl
  | failed hcompiled rest ih =>
    rw [batch_failed hcompiled] at hfault
    rw [turns_failed hcompiled, List.map_cons, ih hfault]
  | stuck hcompiled hkept rest =>
    obtain ⟨e, hbatch⟩ := batch_stuck hcompiled hkept rest
    rw [hbatch] at hfault
    cases hfault
  | kept hcompiled hkept rest ih =>
    rw [batch_kept hcompiled hkept] at hfault
    rw [turns_kept hcompiled hkept, List.map_cons, ih hfault]

/-- A batch counts the turns that failed. -/
theorem failed_of_batch (p : Profile) (outputDir : Option String) (compact : Bool) (t : FileTree)
    (schemas : List String) : (batch p outputDir compact t schemas).1.failed
      = (t.turns p outputDir compact schemas).countP fun turn => !turn.2.isOk := by
  induction t, schemas using batch_induction p outputDir compact with
  | nil t => rfl
  | failed hcompiled rest ih =>
    rw [batch_failed hcompiled, turns_failed hcompiled, List.countP_cons_of_pos rfl, ← ih]
    exact Nat.add_comm _ _
  | stuck hcompiled hkept rest =>
    obtain ⟨e, hbatch⟩ := batch_stuck hcompiled hkept rest
    rw [hbatch, turns_stuck hcompiled hkept]
    rfl
  | kept hcompiled hkept rest ih =>
    rw [batch_kept hcompiled hkept, turns_kept hcompiled hkept, List.countP_cons_of_neg, ← ih]
    · exact Nat.zero_add _
    · exact Bool.false_ne_true

theorem failed_eq_zero : (batch p outputDir compact t schemas).1.failed = 0 ↔
    ∀ turn ∈ t.turns p outputDir compact schemas, turn.2.isOk := by
  rw [failed_of_batch, List.countP_eq_zero]
  simp

/-- Each turn is in the files that the schemas before it left. -/
theorem compiled_of_turns {before after : List (String × Except SchemaError Service)}
    {result : Except SchemaError Service}
    (h : t.turns p outputDir compact schemas = before ++ (path, result) :: after) :
    (batch p outputDir compact t (before.map Prod.fst)).1.fault = none ∧
      (batch p outputDir compact t (before.map Prod.fst)).2.compiled p path = result := by
  induction t, schemas using batch_induction p outputDir compact generalizing before with
  | nil t => cases before <;> cases h
  | failed hcompiled rest ih =>
    rw [turns_failed hcompiled] at h
    rcases List.cons_eq_append_iff.1 h with ⟨rfl, hfirst⟩ | ⟨before, rfl, hlater⟩
    · cases hfirst
      exact ⟨rfl, hcompiled⟩
    · rw [List.map_cons, batch_failed hcompiled]
      exact ih hlater
  | stuck hcompiled hkept rest =>
    rw [turns_stuck hcompiled hkept] at h
    rcases List.cons_eq_append_iff.1 h with ⟨rfl, hfirst⟩ | ⟨before, rfl, hlater⟩
    · cases hfirst
      exact ⟨rfl, hcompiled⟩
    · cases before <;> cases hlater
  | kept hcompiled hkept rest ih =>
    rw [turns_kept hcompiled hkept] at h
    rcases List.cons_eq_append_iff.1 h with ⟨rfl, hfirst⟩ | ⟨before, rfl, hlater⟩
    · cases hfirst
      exact ⟨rfl, hcompiled⟩
    · rw [List.map_cons, batch_kept hcompiled hkept]
      exact ih hlater

/-! ## Whole commands -/

/-- The files with the output directory, and why it cannot be made. -/
def FileTree.prepare (t : FileTree) : Option String → Option OperationalError × FileTree
  | none => (none, t)
  | some dir =>
    match t.makeAll dir with
    | (.ok (), t') => (none, t')
    | (.error fault, t') => (some (.makeDirectory dir fault), t')

/-- The turns of a whole command: none if the output directory cannot be made. -/
def FileTree.recordTurns (t : FileTree) (p : Profile) (outputDir : Option String) (compact : Bool)
    (schemas : List String) : List (String × Except SchemaError Service) :=
  match t.prepare outputDir with
  | (some _, _) => []
  | (none, t₁) => t₁.turns p outputDir compact schemas

theorem recordTurns_of_prepare (h : t.prepare outputDir = (none, t₁)) (p : Profile) (compact : Bool)
    (schemas : List String) :
    t.recordTurns p outputDir compact schemas = t₁.turns p outputDir compact schemas := by
  rw [recordTurns, h]

theorem writeRecords_tree (p : Profile) (schemas : List String) (outputDir : Option String) (compact : Bool)
    (t : FileTree) : writeRecords (m := StateM FileTree) p schemas outputDir compact t
      = match t.prepare outputDir with
        | (some e, t₁) => (⟨"", [], .error e⟩, t₁)
        | (none, t₁) => ((batch p outputDir compact t₁ schemas).1.outcome schemas.length,
            (batch p outputDir compact t₁ schemas).2) := by
  cases outputDir with
  | none => rfl
  | some dir =>
    simp only [writeRecords, FileTree.prepare, bind, StateT.bind, FileSystem.makeDirectories]
    obtain ⟨made, t₁⟩ := t.makeAll dir
    cases made <;> rfl

theorem RecordRun.outcome_eq_ok {r : RecordRun} {total : Nat} {code : UInt8} :
    (r.outcome total).ending = .ok code ↔ r.fault = none ∧ code = if r.failed = 0 then 0 else 1 := by
  rw [outcome]
  cases r.fault with
  | some e => simp
  | none => by_cases hfailed : r.failed = 0 <;> simp [hfailed, eq_comm]

theorem RecordRun.outcome_stdout (r : RecordRun) (total : Nat) : (r.outcome total).stdout = r.stdout := by
  rw [outcome]
  split
  · rfl
  · split <;> rfl

/-- A command that comes to an exit code has made its directory and kept all records, and the code tells whether a
schema has failed. -/
theorem writeRecords_eq_ok {o : Outcome} {code : UInt8}
    (h : writeRecords (m := StateM FileTree) p schemas outputDir compact t = (o, t')) (hcode : o.ending = .ok code) :
    ∃ t₁, t.prepare outputDir = (none, t₁) ∧ (batch p outputDir compact t₁ schemas).2 = t' ∧
      (batch p outputDir compact t₁ schemas).1.fault = none ∧
      code = if (batch p outputDir compact t₁ schemas).1.failed = 0 then 0 else 1 := by
  rw [writeRecords_tree] at h
  split at h
  · cases h
    cases hcode
  · next t₁ hprepare =>
    cases h
    exact ⟨t₁, hprepare, rfl, RecordRun.outcome_eq_ok.1 hcode⟩

/-! ## Descriptors -/

/-- A schema that does not compile ends the writing of its descriptor before any file is touched. -/
theorem writeDescriptor_failed (h : t.compiled p path = .error e) (json : Bool) (output : Option String) :
    writeDescriptor (m := StateM FileTree) p path json output t
      = (⟨"", (t.schema p path).log ++ [.schemaFailed path e], .ok 1⟩, t) := by
  rw [compiled_eq] at h
  simp only [writeDescriptor, bind, StateT.bind, compileFile_tree, h]
  rfl

/-- The descriptor of a schema that compiles is shown if it is not written to a file. -/
theorem writeDescriptor_shown (h : t.compiled p path = .ok s) (json : Bool) :
    writeDescriptor (m := StateM FileTree) p path json none t
      = (⟨(if json then s.json else s.cArray) ++ "\n", (t.schema p path).log, .ok 0⟩, t) := by
  rw [compiled_eq] at h
  simp only [writeDescriptor, bind, StateT.bind, compileFile_tree, h]
  rfl

end ServiceSchema
