import ServiceSchema.Proofs.Command

/-! # Schemas that fail
A schema that fails at its turn leaves no trace in the files: a batch comes to the same without it. Only the exit code
tells of it. -/
namespace ServiceSchema
open FileTree

variable {p : Profile} {outputDir : Option String} {compact : Bool} {t t' : FileTree} {schemas : List String}

/-- The schemas that compile, each at its turn. -/
def compiling (turns : List (String × Except SchemaError Service)) : List String :=
  (turns.filter fun turn => turn.2.isOk).map Prod.fst

/-- The schemas that fail can be left out of a batch. -/
theorem batch_compiling (hfault : (batch p outputDir compact t schemas).1.fault = none) :
    (batch p outputDir compact t (compiling (t.turns p outputDir compact schemas))).1.fault = none ∧
    (batch p outputDir compact t (compiling (t.turns p outputDir compact schemas))).1.failed = 0 ∧
    (batch p outputDir compact t (compiling (t.turns p outputDir compact schemas))).2
      = (batch p outputDir compact t schemas).2 := by
  induction t, schemas using batch_induction p outputDir compact with
  | nil t => exact ⟨rfl, rfl, rfl⟩
  | @failed t path e hcompiled rest ih =>
    have hleft : compiling (t.turns p outputDir compact (path :: rest))
        = compiling (t.turns p outputDir compact rest) := by
      rw [turns_failed hcompiled]
      rfl
    rw [batch_failed hcompiled] at hfault
    rw [hleft, batch_failed hcompiled]
    exact ih hfault
  | stuck hcompiled hkept rest =>
    obtain ⟨e, hbatch⟩ := batch_stuck hcompiled hkept rest
    rw [hbatch] at hfault
    cases hfault
  | @kept t path s t₁ hcompiled hkept rest ih =>
    have hleft : compiling (t.turns p outputDir compact (path :: rest))
        = path :: compiling (t₁.turns p outputDir compact rest) := by
      rw [turns_kept hcompiled hkept]
      rfl
    -- both batches take the same step, and go on from the same files
    rw [batch_kept hcompiled hkept] at hfault
    rw [hleft, batch_kept hcompiled hkept, batch_kept hcompiled hkept]
    obtain ⟨hnofault, hnofailed, hfiles⟩ := ih hfault
    exact ⟨hnofault, by simp [RecordRun.after, hnofailed], hfiles⟩

/-- Each turn of a command is in the files that it leaves if the schemas before are all it is given. -/
theorem exists_run_of_recordTurns {path : String} {result : Except SchemaError Service}
    {before after : List (String × Except SchemaError Service)}
    (h : t.recordTurns p outputDir compact schemas = before ++ (path, result) :: after) :
    ∃ o t', writeRecords (m := StateM FileTree) p (before.map Prod.fst) outputDir compact t = (o, t') ∧
      (∃ code, o.ending = .ok code) ∧ t'.compiled p path = result := by
  rw [recordTurns] at h
  rw [writeRecords_tree]
  split at h
  · cases before <;> cases h
  · obtain ⟨hfault, hcompiled⟩ := compiled_of_turns h
    exact ⟨_, _, rfl, ⟨_, RecordRun.outcome_eq_ok.2 ⟨hfault, rfl⟩⟩, hcompiled⟩

/-- The exit code of a command tells whether a schema has failed at its turn. The files are those that the schemas
alone leave that do not fail; and of a single schema that fails no descriptor is written. -/
theorem failures_leave_no_trace (p : Profile) (t : FileTree) :
    (∀ schemas outputDir compact o t' code,
      writeRecords (m := StateM FileTree) p schemas outputDir compact t = (o, t') → o.ending = .ok code →
      (t.recordTurns p outputDir compact schemas).map Prod.fst = schemas ∧
      (∀ before path result after,
        t.recordTurns p outputDir compact schemas = before ++ (path, result) :: after →
        ∃ o₁ t₁, writeRecords (m := StateM FileTree) p (before.map Prod.fst) outputDir compact t = (o₁, t₁) ∧
          (∃ code₁, o₁.ending = .ok code₁) ∧ t₁.compiled p path = result) ∧
      (code = if ∀ turn ∈ t.recordTurns p outputDir compact schemas, turn.2.isOk then 0 else 1) ∧
      ∃ o', writeRecords (m := StateM FileTree) p (compiling (t.recordTurns p outputDir compact schemas)) outputDir
        compact t = (o', t') ∧ o'.ending = .ok 0) ∧
    ∀ schema e json output, t.compiled p schema = .error e →
      ∃ o, writeDescriptor (m := StateM FileTree) p schema json output t = (o, t) ∧ o.ending = .ok 1 := by
  refine ⟨fun schemas outputDir compact o t' code h hcode => ?_, fun schema e json output h => ?_⟩
  · obtain ⟨t₁, hprepare, rfl, hfault, hfailed⟩ := writeRecords_eq_ok h hcode
    obtain ⟨hnofault, hnofailed, hfiles⟩ := batch_compiling hfault
    have hturns := recordTurns_of_prepare hprepare p compact schemas
    refine ⟨?_, fun before path result after => exists_run_of_recordTurns, ?_, ?_⟩
    · rw [hturns, turns_of_batch hfault]
    · simpa only [hturns, failed_eq_zero] using hfailed
    · rw [hturns, writeRecords_tree, hprepare]
      exact ⟨_, congrArg _ hfiles, RecordRun.outcome_eq_ok.2 ⟨hnofault, (if_pos hnofailed).symm⟩⟩
  · exact ⟨_, writeDescriptor_failed h json output, rfl⟩

def missingRun (schemas : List String) : Outcome × FileTree :=
  writeRecords (m := StateM FileTree) .standard schemas (some "out") true (lamps "Desk Lamp" "Wall Lamp")

theorem missingRun_eq (schemas : List String) :
    writeRecords (m := StateM FileTree) .standard schemas (some "out") true (lamps "Desk Lamp" "Wall Lamp")
      = ((missingRun schemas).1, (missingRun schemas).2) :=
  rfl

theorem failures_leave_no_trace_missing : (missingRun ["none.json", "a.json", "none.json"]).1.ending = .ok 1 ∧
    (∃ o, writeRecords (m := StateM FileTree) .standard ["a.json"] (some "out") true (lamps "Desk Lamp" "Wall Lamp")
      = (o, (missingRun ["none.json", "a.json", "none.json"]).2) ∧ o.ending = .ok 0) ∧
    ∃ o, writeDescriptor (m := StateM FileTree) .standard "none.json" true (some "out.json")
      (lamps "Desk Lamp" "Wall Lamp") = (o, lamps "Desk Lamp" "Wall Lamp") ∧ o.ending = .ok 1 := by
  have hrun : (missingRun ["none.json", "a.json", "none.json"]).1.ending.toOption = some 1 ∧
      compiling ((lamps "Desk Lamp" "Wall Lamp").recordTurns .standard (some "out") true
        ["none.json", "a.json", "none.json"]) = ["a.json"] ∧
      ((lamps "Desk Lamp" "Wall Lamp").compiled .standard "none.json").toOption.isNone := by
    decide +kernel
  obtain ⟨hending, hleft, hmissing⟩ := hrun
  have hcode := eq_ok_of_toOption hending
  obtain ⟨hrecords, hdescriptor⟩ := failures_leave_no_trace .standard (lamps "Desk Lamp" "Wall Lamp")
  obtain ⟨-, -, -, hreduced⟩ := hrecords _ _ _ _ _ _ (missingRun_eq _) hcode
  rw [hleft] at hreduced
  refine ⟨hcode, hreduced, ?_⟩
  cases hcompiled : (lamps "Desk Lamp" "Wall Lamp").compiled .standard "none.json" with
  | ok s =>
    rw [hcompiled] at hmissing
    cases hmissing
  | error e => exact hdescriptor _ e true (some "out.json") hcompiled

end ServiceSchema
