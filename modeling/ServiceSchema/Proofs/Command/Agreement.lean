import ServiceSchema.Proofs.Command

/-! # What commands agree on
A check, the writing of records and the writing of a descriptor find the same schemas to fail. None of them looks at
what another schema came to, and without an output they leave all files as they are. -/
namespace ServiceSchema
open FileTree

variable {p : Profile} {compact : Bool} {t : FileTree} {path : String} {schemas rest : List String} {s : Service}
  {e : SchemaError} {total : Nat} {report : Report}

def FileTree.failure? (t : FileTree) (p : Profile) (path : String) : Option Failure :=
  match t.compiled p path with
  | .ok _ => none
  | .error e => some ⟨path, e⟩

def FileTree.shown? (t : FileTree) (p : Profile) (compact : Bool) (path : String) : Option String :=
  match t.compiled p path with
  | .ok s => some (s.render compact ++ "\n")
  | .error _ => none

theorem failure?_eq_none : t.failure? p path = none ↔ ∃ s, t.compiled p path = .ok s := by
  rw [failure?]
  cases t.compiled p path <;> simp

theorem failure?_of_error (h : t.compiled p path = .error e) : t.failure? p path = some ⟨path, e⟩ := by
  rw [failure?, h]

theorem shown?_of_error (h : t.compiled p path = .error e) : t.shown? p compact path = none := by
  rw [shown?, h]

theorem shown?_of_ok (h : t.compiled p path = .ok s) : t.shown? p compact path = some (s.render compact ++ "\n") := by
  rw [shown?, h]

theorem mem_failures : (∃ failure ∈ schemas.filterMap (t.failure? p), failure.schema = path) ↔
    path ∈ schemas ∧ ∃ e, t.compiled p path = .error e := by
  constructor
  · rintro ⟨failure, hmem, rfl⟩
    obtain ⟨path, hpath, hfailure⟩ := List.mem_filterMap.1 hmem
    rw [failure?] at hfailure
    split at hfailure
    · cases hfailure
    · next e hcompiled =>
      cases hfailure
      exact ⟨hpath, e, hcompiled⟩
  · rintro ⟨hpath, e, hcompiled⟩
    exact ⟨_, List.mem_filterMap.2 ⟨path, hpath, failure?_of_error hcompiled⟩, rfl⟩

/-! ## Checks -/

theorem checkEach_failed (h : t.compiled p path = .error e)
    (hrest : checkEach (m := StateM FileTree) p total rest t = (report, t)) :
    checkEach (m := StateM FileTree) p total (path :: rest) t
      = (⟨report.total, report.passed, ⟨path, e⟩ :: report.failures, (t.schema p path).log ++ report.log⟩, t) := by
  rw [compiled_eq] at h
  simp only [checkEach, bind, StateT.bind, compileFile_tree, hrest, h]
  rfl

theorem checkEach_passed (h : t.compiled p path = .ok s)
    (hrest : checkEach (m := StateM FileTree) p total rest t = (report, t)) :
    checkEach (m := StateM FileTree) p total (path :: rest) t
      = (⟨report.total, report.passed + 1, report.failures,
          (t.schema p path).log ++ .schemaPassed path s.className :: report.log⟩, t) := by
  rw [compiled_eq] at h
  simp only [checkEach, bind, StateT.bind, compileFile_tree, hrest, h]
  rfl

/-- A check leaves all files as they are, and counts each schema once. -/
theorem checkEach_tree (p : Profile) (total : Nat) (t : FileTree) (schemas : List String) :
    ∃ report, checkEach (m := StateM FileTree) p total schemas t = (report, t) ∧ report.total = total ∧
      report.failures = schemas.filterMap (t.failure? p) ∧
      report.passed + report.failures.length = schemas.length := by
  induction schemas with
  | nil => exact ⟨_, rfl, rfl, rfl, rfl⟩
  | cons path rest ih =>
    obtain ⟨report, hrest, htotal, hfailures, hcount⟩ := ih
    cases hcompiled : t.compiled p path with
    | error e =>
      refine ⟨_, checkEach_failed hcompiled hrest, htotal, ?_, ?_⟩
      · rw [List.filterMap_cons_some (failure?_of_error hcompiled), hfailures]
      · exact congrArg Nat.succ hcount
    | ok s =>
      refine ⟨_, checkEach_passed hcompiled hrest, htotal, ?_, ?_⟩
      · rw [List.filterMap_cons_none (failure?_eq_none.2 ⟨s, hcompiled⟩), hfailures]
      · rw [List.length_cons, ← hcount]
        exact Nat.succ_add _ _

/-! ## Records that are shown -/

theorem batch_shown (p : Profile) (compact : Bool) (t : FileTree) (schemas : List String) :
    (batch p none compact t schemas).2 = t ∧ (batch p none compact t schemas).1.fault = none ∧
      (batch p none compact t schemas).1.failed = (schemas.filterMap (t.failure? p)).length ∧
      (batch p none compact t schemas).1.stdout = String.join (schemas.filterMap (t.shown? p compact)) := by
  induction schemas with
  | nil => exact ⟨rfl, rfl, rfl, rfl⟩
  | cons path rest ih =>
    obtain ⟨hfiles, hfault, hfailed, hstdout⟩ := ih
    cases hcompiled : t.compiled p path with
    | error e =>
      rw [batch_failed hcompiled, List.filterMap_cons_some (failure?_of_error hcompiled),
        List.filterMap_cons_none (shown?_of_error hcompiled), List.length_cons, ← hfailed, ← hstdout]
      exact ⟨hfiles, hfault, Nat.add_comm _ _, String.empty_append⟩
    | ok s =>
      rw [batch_kept hcompiled rfl, List.filterMap_cons_none (failure?_eq_none.2 ⟨s, hcompiled⟩),
        List.filterMap_cons_some (shown?_of_ok hcompiled), String.join_cons, ← hfailed, ← hstdout]
      exact ⟨hfiles, hfault, Nat.zero_add _, rfl⟩

/-! ## Agreement -/

/-- The report of a check foretells what is shown of the records of its schemas, and which of them have a descriptor. -/
theorem commands_agree (p : Profile) (t : FileTree) (schemas : List String) :
    ∃ report, checkSchemas (m := StateM FileTree) p schemas t = (report, t) ∧ report.total = schemas.length ∧
      report.passed + report.failures.length = report.total ∧
      report.failures = schemas.filterMap (t.failure? p) ∧
      (∀ json, ∃ o, showReport (m := StateM FileTree) p schemas json t = (o, t) ∧
        o.ending = .ok (if report.failures = [] then 0 else 1)) ∧
      (∀ compact, ∃ o, writeRecords (m := StateM FileTree) p schemas none compact t = (o, t) ∧
        o.ending = .ok (if report.failures = [] then 0 else 1) ∧
        o.stdout = String.join (schemas.filterMap (t.shown? p compact))) ∧
      ∀ path ∈ schemas, ∀ json, ∃ o, writeDescriptor (m := StateM FileTree) p path json none t = (o, t) ∧
        o.ending = .ok (if ∃ failure ∈ report.failures, failure.schema = path then 1 else 0) := by
  obtain ⟨report, hcheck, htotal, hfailures, hcount⟩ := checkEach_tree p schemas.length t schemas
  refine ⟨report, hcheck, htotal, hcount.trans htotal.symm, hfailures, fun json => ?_, fun compact => ?_,
    fun path hpath json => ?_⟩
  · simp only [showReport, checkSchemas, bind, StateT.bind, hcheck]
    exact ⟨_, rfl, rfl⟩
  · obtain ⟨hfiles, hfault, hfailed, hstdout⟩ := batch_shown p compact t schemas
    have hrecords := writeRecords_tree p schemas none compact t
    simp only [prepare, hfiles] at hrecords
    refine ⟨_, hrecords, ?_, ?_⟩
    · refine RecordRun.outcome_eq_ok.2 ⟨hfault, ?_⟩
      simp only [hfailed, hfailures, List.length_eq_zero_iff]
    · rw [← hstdout]
      exact RecordRun.outcome_stdout _ _
  · rw [hfailures]
    cases hcompiled : t.compiled p path with
    | error e =>
      refine ⟨_, writeDescriptor_failed hcompiled json none, ?_⟩
      rw [if_pos (mem_failures.2 ⟨hpath, e, hcompiled⟩)]
    | ok s =>
      refine ⟨_, writeDescriptor_shown hcompiled json, ?_⟩
      have hpassed : ¬ ∃ failure ∈ schemas.filterMap (t.failure? p), failure.schema = path := by
        intro hfailed
        obtain ⟨-, e, herror⟩ := mem_failures.1 hfailed
        cases hcompiled.symm.trans herror
      rw [if_neg hpassed]

theorem commands_agree_missing : ∃ report,
    checkSchemas (m := StateM FileTree) .standard ["none.json", "a.json", "none.json"] (lamps "Desk Lamp" "Wall Lamp")
      = (report, lamps "Desk Lamp" "Wall Lamp") ∧ report.passed = 1 ∧
    report.failures.map Failure.schema = ["none.json", "none.json"] ∧
    (∃ o, writeDescriptor (m := StateM FileTree) .standard "a.json" true none (lamps "Desk Lamp" "Wall Lamp")
      = (o, lamps "Desk Lamp" "Wall Lamp") ∧ o.ending = .ok 0) ∧
    ∃ o, writeDescriptor (m := StateM FileTree) .standard "none.json" true none (lamps "Desk Lamp" "Wall Lamp")
      = (o, lamps "Desk Lamp" "Wall Lamp") ∧ o.ending = .ok 1 := by
  obtain ⟨report, hcheck, htotal, hcount, hfailures, -, -, hdescriptor⟩ :=
    commands_agree .standard (lamps "Desk Lamp" "Wall Lamp") ["none.json", "a.json", "none.json"]
  have hschemas : report.failures.map Failure.schema = ["none.json", "none.json"] := by
    rw [hfailures]
    decide +kernel
  have hlength : report.failures.length = 2 := by rw [← List.length_map, hschemas]; rfl
  have hfailed (path : String) :
      (∃ failure ∈ report.failures, failure.schema = path) ↔ path ∈ ["none.json", "none.json"] := by
    rw [← hschemas, List.mem_map]
  have hpresent := hdescriptor "a.json" (by decide) true
  have hmissing := hdescriptor "none.json" (by decide) true
  simp only [hfailed] at hpresent hmissing
  refine ⟨report, hcheck, ?_, hschemas, hpresent, hmissing⟩
  rw [htotal, hlength] at hcount
  exact Nat.add_right_cancel hcount

end ServiceSchema
