import ServiceSchema.CommandLine
import ServiceSchema.Proofs.Command.Agreement
import ServiceSchema.Proofs.Compiler
import ServiceSchema.Proofs.Profile

/-! # Exit codes
What the exit code of an invocation tells. A command has its schemas take their turns, one after the other: each of them
fails, or what comes of it is kept, and the next one finds the files that are left. What cannot be kept stops the
command, whatever has failed before. -/
namespace ServiceSchema
open FileTree

variable {c : Command} {p p' : Profile} {t t₀ t₁ t' t'' : FileTree} {path : String} {before rest paths : List String}
  {profile outputDir : Option String} {compact json : Bool} {s : Service} {e : SchemaError} {fault : FileFault}

/-! ## Profiles -/

/-- The file that an invocation names cannot be read as text, is no mapping of profile keys, or has a flaw. -/
inductive FileTree.RejectsProfile (t : FileTree) : Option String → Prop where
  | unreadable {path : String} {fault : FileFault} (file : t.text path = .error fault) : RejectsProfile t (some path)
  | invalid {path text : String} {fault : Profile.ReadFault} (file : t.text path = .ok text)
      (members : Profile.members text = .error fault) : RejectsProfile t (some path)
  | inconsistent {path text : String} {given : List (Profile.Key × String)} {flaw : Profile.Flaw}
      (file : t.text path = .ok text) (members : Profile.members text = .ok given)
      (flaw : (Profile.assemble given).flaw? = some flaw) : RejectsProfile t (some path)

/-- A text is rejected when it is neither blank nor a mapping of different keys to texts, or what it says has a flaw. -/
theorem rejectsProfile_iff {text : String} (file : t.text path = .ok text) : t.RejectsProfile (some path) ↔
    Profile.IllFormed text ∨
      ∃ given flaw, Profile.members text = .ok given ∧ (Profile.assemble given).flaw? = some flaw := by
  rw [← Profile.members_eq_error]
  constructor
  · rintro (unreadable | ⟨file', members⟩ | ⟨file', members, flaw⟩)
    · cases file.symm.trans unreadable
    · cases file.symm.trans file'
      exact .inl ⟨_, members⟩
    · cases file.symm.trans file'
      exact .inr ⟨_, _, members, flaw⟩
  · rintro (⟨fault, members⟩ | ⟨given, flaw, members, hflaw⟩)
    · exact .invalid file members
    · exact .inconsistent file members hflaw

inductive FileTree.AcceptsProfile (t : FileTree) : Option String → Profile → Prop where
  | standard : AcceptsProfile t none .standard
  | file {path text : String} {given : List (Profile.Key × String)} (file : t.text path = .ok text)
      (members : Profile.members text = .ok given) (sound : (Profile.assemble given).flaw? = none) :
      AcceptsProfile t (some path) (Profile.assemble given)

theorem rejects_or_accepts (t : FileTree) (profile : Option String) :
    t.RejectsProfile profile ∨ ∃ p, t.AcceptsProfile profile p := by
  cases profile with
  | none => exact .inr ⟨_, .standard⟩
  | some path =>
    cases hfile : t.text path with
    | error fault => exact .inl (.unreadable hfile)
    | ok text =>
      cases hmembers : Profile.members text with
      | error fault => exact .inl (.invalid hfile hmembers)
      | ok given =>
        cases hflaw : (Profile.assemble given).flaw? with
        | some flaw => exact .inl (.inconsistent hfile hmembers hflaw)
        | none => exact .inr ⟨_, .file hfile hmembers hflaw⟩

theorem loadProfile_text {text : String} (h : t.text path = .ok text) :
    loadProfile (m := StateM FileTree) (some path) t = (match Profile.read text with
      | .error fault => .ofExcept (.error (.profile path (.malformed fault)))
      | .ok p => ⟨[.loadedProfile path], .ok p⟩, t) := by
  simp only [loadProfile, bind, StateT.bind, readText_tree, h]
  cases Profile.read text <;> rfl

theorem loadProfile_of_rejects (h : t.RejectsProfile profile) :
    ∃ log e, loadProfile (m := StateM FileTree) profile t = (⟨log, .error e⟩, t) := by
  cases h with
  | unreadable file =>
    simp only [loadProfile, bind, StateT.bind, readText_tree, file]
    exact ⟨_, _, rfl⟩
  | invalid file members =>
    rw [loadProfile_text file, Profile.read_eq_error.2 (.inl members)]
    exact ⟨_, _, rfl⟩
  | inconsistent file members flaw =>
    rw [loadProfile_text file, Profile.read_eq_error.2 (.inr ⟨_, _, members, flaw, rfl⟩)]
    exact ⟨_, _, rfl⟩

theorem loadProfile_of_accepts (h : t.AcceptsProfile profile p) :
    ∃ log, loadProfile (m := StateM FileTree) profile t = (⟨log, .ok p⟩, t) := by
  cases h with
  | standard => exact ⟨[], rfl⟩
  | file file members sound =>
    rw [loadProfile_text file, Profile.read_eq_ok.2 ⟨_, members, sound, rfl⟩]
    exact ⟨_, rfl⟩

theorem FileTree.AcceptsProfile.unique (h : t.AcceptsProfile profile p) (h' : t.AcceptsProfile profile p') :
    p = p' := by
  obtain ⟨_, hload⟩ := loadProfile_of_accepts h
  obtain ⟨_, hload'⟩ := loadProfile_of_accepts h'
  cases hload.symm.trans hload'
  rfl

theorem not_accepts_of_rejects (h : t.RejectsProfile profile) : ¬ t.AcceptsProfile profile p := by
  intro haccepts
  obtain ⟨_, _, herror⟩ := loadProfile_of_rejects h
  obtain ⟨_, hok⟩ := loadProfile_of_accepts haccepts
  cases herror.symm.trans hok

/-! ## Turns -/

def Service.descriptorFile (s : Service) (json : Bool) : List UInt8 :=
  Utf8.encode ((if json then s.json else s.cArray) ++ "\n").toList

namespace Command

def schemas : Command → List String
  | .records schemas _ _ | .check schemas _ => schemas
  | .embed schema _ _ => [schema]

/-- The directory that is made before any schema is looked at. -/
def directory? : Command → Option String
  | .records _ outputDir _ => outputDir
  | .check _ _ | .embed _ _ _ => none

def output? (c : Command) (s : Service) : Option (String × List UInt8) :=
  match c with
  | .records _ outputDir compact => outputDir.map fun dir => (Path.join dir (recordName s), s.recordFile compact)
  | .check _ _ => none
  | .embed _ json output => output.map fun out => (out, s.descriptorFile json)

def keep (c : Command) (t : FileTree) (s : Service) : Except FileFault FileTree :=
  match c.output? s with
  | none => .ok t
  | some (out, content) => t.written out content

inductive Step (c : Command) (p : Profile) (t : FileTree) (path : String) : FileTree → Prop where
  | failed {e : SchemaError} (compiled : t.compiled p path = .error e) : Step c p t path t
  | kept {s : Service} {t' : FileTree} (compiled : t.compiled p path = .ok s) (kept : c.keep t s = .ok t') :
      Step c p t path t'

/-- The turns of these schemas, from the files before to the files after. -/
inductive Passes (c : Command) (p : Profile) : FileTree → List String → FileTree → Prop where
  | nil (t : FileTree) : Passes c p t [] t
  | cons {t t₁ t' : FileTree} {path : String} {rest : List String} (step : c.Step p t path t₁)
      (turns : Passes c p t₁ rest t') : Passes c p t (path :: rest) t'

theorem passes_nil : c.Passes p t [] t' ↔ t' = t := by
  constructor
  · intro h
    cases h
    rfl
  · rintro rfl
    exact .nil t'

theorem passes_cons : c.Passes p t (path :: rest) t' ↔ ∃ t₁, c.Step p t path t₁ ∧ c.Passes p t₁ rest t' := by
  constructor
  · intro h
    cases h with
    | cons step turns => exact ⟨_, step, turns⟩
  · rintro ⟨t₁, step, turns⟩
    exact .cons step turns

theorem passes_append : c.Passes p t (before ++ rest) t' ↔ ∃ t₁, c.Passes p t before t₁ ∧ c.Passes p t₁ rest t' := by
  induction before generalizing t with
  | nil => simp only [List.nil_append, passes_nil, exists_eq_left]
  | cons path before ih =>
    simp only [List.cons_append, passes_cons, ih]
    constructor
    · rintro ⟨t₁, hstep, t₂, hbefore, hrest⟩
      exact ⟨t₂, ⟨t₁, hstep, hbefore⟩, hrest⟩
    · rintro ⟨t₂, ⟨t₁, hstep, hbefore⟩, hrest⟩
      exact ⟨t₁, hstep, t₂, hbefore, hrest⟩

theorem Step.unique (h : c.Step p t path t') (h' : c.Step p t path t'') : t' = t'' := by
  cases h with
  | failed compiled =>
    cases h' with
    | failed => rfl
    | kept compiled' => cases compiled.symm.trans compiled'
  | kept compiled kept =>
    cases h' with
    | failed compiled' => cases compiled.symm.trans compiled'
    | kept compiled' kept' =>
      cases compiled.symm.trans compiled'
      exact Except.ok.inj (kept.symm.trans kept')

theorem Passes.unique (h : c.Passes p t paths t') (h' : c.Passes p t paths t'') : t' = t'' := by
  induction h with
  | nil t => exact (passes_nil.1 h').symm
  | cons step turns ih =>
    obtain ⟨t₂, step', turns'⟩ := passes_cons.1 h'
    cases step.unique step'
    exact ih turns'

/-- A command comes to one of these schemas and finds files in which this holds of it. -/
def Meets (c : Command) (p : Profile) (P : FileTree → String → Prop) (t : FileTree) (paths : List String) : Prop :=
  ∃ before path after, paths = before ++ path :: after ∧ ∃ t', c.Passes p t before t' ∧ P t' path

def FailsAt (p : Profile) (t : FileTree) (path : String) : Prop := ∃ e, t.compiled p path = .error e

def StuckAt (c : Command) (p : Profile) (t : FileTree) (path : String) : Prop :=
  ∃ s fault, t.compiled p path = .ok s ∧ c.keep t s = .error fault

theorem not_meets_nil {P : FileTree → String → Prop} : ¬ c.Meets p P t [] := not_exists_split_nil

/-- It is the first schema that is met so, or one that comes after its turn. -/
theorem meets_cons {P : FileTree → String → Prop} :
    c.Meets p P t (path :: rest) ↔ P t path ∨ ∃ t₁, c.Step p t path t₁ ∧ c.Meets p P t₁ rest := by
  rw [Meets, exists_split_cons]
  simp only [passes_nil, passes_cons, exists_eq_left, Meets]
  refine or_congr_right ?_
  constructor
  · rintro ⟨before, path, after, hsplit, t', ⟨t₁, hstep, hbefore⟩, hmet⟩
    exact ⟨t₁, hstep, before, path, after, hsplit, t', hbefore, hmet⟩
  · rintro ⟨t₁, hstep, before, path, after, hsplit, t', hbefore, hmet⟩
    exact ⟨before, path, after, hsplit, t', ⟨t₁, hstep, hbefore⟩, hmet⟩

theorem meets_cons_of_step {P : FileTree → String → Prop} (h : c.Step p t path t₁) :
    c.Meets p P t (path :: rest) ↔ P t path ∨ c.Meets p P t₁ rest := by
  rw [meets_cons]
  refine or_congr_right ⟨?_, fun hmeets => ⟨t₁, h, hmeets⟩⟩
  rintro ⟨t₂, hstep, hmeets⟩
  rwa [h.unique hstep]

/-- A schema either has its turn or stops the command. -/
theorem step_iff_not_stuck : (∃ t₁, c.Step p t path t₁) ↔ ¬ c.StuckAt p t path := by
  constructor
  · rintro ⟨t₁, hstep⟩ ⟨s, fault, hcompiled, hkept⟩
    cases hstep with
    | failed compiled => cases compiled.symm.trans hcompiled
    | kept compiled kept =>
      cases compiled.symm.trans hcompiled
      cases kept.symm.trans hkept
  · intro hstuck
    cases hcompiled : t.compiled p path with
    | error e => exact ⟨t, .failed hcompiled⟩
    | ok s =>
      cases hkept : c.keep t s with
      | error fault => exact absurd ⟨s, fault, hcompiled, hkept⟩ hstuck
      | ok t₁ => exact ⟨t₁, .kept hcompiled hkept⟩

/-- Either all schemas have their turns, or one of them stops the command. -/
theorem passes_iff_not_stuck : (∃ t', c.Passes p t paths t') ↔ ¬ c.Meets p (c.StuckAt p) t paths := by
  induction paths generalizing t with
  | nil => exact iff_of_true ⟨t, .nil t⟩ not_meets_nil
  | cons path rest ih =>
    by_cases hstuck : c.StuckAt p t path
    · refine iff_of_false ?_ (not_not_intro (meets_cons.2 (.inl hstuck)))
      rintro ⟨t', hpasses⟩
      obtain ⟨t₁, hstep, -⟩ := passes_cons.1 hpasses
      exact step_iff_not_stuck.1 ⟨t₁, hstep⟩ hstuck
    · obtain ⟨t₁, hstep⟩ := step_iff_not_stuck.2 hstuck
      rw [meets_cons_of_step hstep, or_iff_right hstuck, ← ih]
      simp only [passes_cons]
      constructor
      · rintro ⟨t', t₂, hstep', hturns⟩
        exact ⟨t', (hstep.unique hstep') ▸ hturns⟩
      · rintro ⟨t', hturns⟩
        exact ⟨t', t₁, hstep, hturns⟩

/-! ## Endings -/

/-- The output directory, or the file for what comes of a schema, cannot be made. -/
inductive Stops (c : Command) (p : Profile) (t : FileTree) : Prop where
  | directory {dir : String} {fault : FileFault} (given : c.directory? = some dir)
      (refused : (t.makeAll dir).1 = .error fault)
  | output {t₀ : FileTree} (prepared : t.prepare c.directory? = (none, t₀))
      (stuck : c.Meets p (c.StuckAt p) t₀ c.schemas)

def SomeFails (c : Command) (p : Profile) (t : FileTree) : Prop :=
  ∃ t₀, t.prepare c.directory? = (none, t₀) ∧ c.Meets p (FailsAt p) t₀ c.schemas

def AllCompile (c : Command) (p : Profile) (t : FileTree) : Prop :=
  ∃ t₀, t.prepare c.directory? = (none, t₀) ∧ ∀ before path after, c.schemas = before ++ path :: after →
    ∃ t₁ s, c.Passes p t₀ before t₁ ∧ t₁.compiled p path = .ok s

theorem prepare_eq_none_iff : (∃ t₀, t.prepare c.directory? = (none, t₀)) ↔
    ¬ ∃ dir fault, c.directory? = some dir ∧ (t.makeAll dir).1 = .error fault := by
  cases c.directory? with
  | none => simp [prepare]
  | some dir =>
    rw [prepare]
    cases hmade : t.makeAll dir with
    | mk made t₁ => cases made <;> simp [hmade]

theorem stops_iff (h : t.prepare c.directory? = (none, t₀)) :
    c.Stops p t ↔ c.Meets p (c.StuckAt p) t₀ c.schemas := by
  constructor
  · intro hstops
    cases hstops with
    | directory given refused => exact absurd ⟨_, _, given, refused⟩ (prepare_eq_none_iff.1 ⟨t₀, h⟩)
    | output prepared stuck =>
      cases h.symm.trans prepared
      exact stuck
  · exact .output h

theorem someFails_iff (h : t.prepare c.directory? = (none, t₀)) :
    c.SomeFails p t ↔ c.Meets p (FailsAt p) t₀ c.schemas := by
  constructor
  · rintro ⟨t₁, hprepare, hmeets⟩
    cases h.symm.trans hprepare
    exact hmeets
  · exact fun hmeets => ⟨t₀, h, hmeets⟩

/-- If nothing stops a command, all its schemas compile, or one of them fails. -/
theorem allCompile_iff (h : ¬ c.Stops p t) : c.AllCompile p t ↔ ¬ c.SomeFails p t := by
  constructor
  · rintro ⟨t₀, hprepare, hall⟩ hfails
    obtain ⟨before, path, after, hsplit, t₁, hbefore, e, hfailed⟩ := (someFails_iff hprepare).1 hfails
    obtain ⟨t₂, s, hbefore', hcompiled⟩ := hall before path after hsplit
    cases hbefore.unique hbefore'
    cases hfailed.symm.trans hcompiled
  · intro hfails
    obtain ⟨t₀, hprepare⟩ := prepare_eq_none_iff.2 fun ⟨dir, fault, hdir, hmade⟩ => h (.directory hdir hmade)
    refine ⟨t₀, hprepare, fun before path after hsplit => ?_⟩
    obtain ⟨t', hpasses⟩ := passes_iff_not_stuck.2 (mt (stops_iff hprepare).2 h)
    rw [hsplit, passes_append] at hpasses
    obtain ⟨t₁, hbefore, -⟩ := hpasses
    cases hcompiled : t₁.compiled p path with
    | ok s => exact ⟨t₁, s, hbefore, hcompiled⟩
    | error e =>
      exact absurd ((someFails_iff hprepare).2 ⟨before, path, after, hsplit, t₁, hbefore, e, hcompiled⟩) hfails

inductive Ends (c : Command) (p : Profile) (t : FileTree) : Except OperationalError UInt8 → Prop where
  | stopped {e : OperationalError} (stops : c.Stops p t) : Ends c p t (.error e)
  | failed (goesOn : ¬ c.Stops p t) (fails : c.SomeFails p t) : Ends c p t (.ok 1)
  | passed (goesOn : ¬ c.Stops p t) (compile : ¬ c.SomeFails p t) : Ends c p t (.ok 0)

theorem ends_of_prepare (h : t.prepare c.directory? = (none, t₀)) (hstuck : ¬ c.Meets p (c.StuckAt p) t₀ c.schemas)
    {code : UInt8} (hfails : c.Meets p (FailsAt p) t₀ c.schemas → code = 1)
    (hcompile : ¬ c.Meets p (FailsAt p) t₀ c.schemas → code = 0) : c.Ends p t (.ok code) := by
  rw [← stops_iff h] at hstuck
  rw [← someFails_iff h] at hfails hcompile
  by_cases hsome : c.SomeFails p t
  · rw [hfails hsome]
    exact .failed hstuck hsome
  · rw [hcompile hsome]
    exact .passed hstuck hsome

/-! ## Records -/

theorem keep_records (all : List String) (outputDir : Option String) (compact : Bool) (t : FileTree) (s : Service) :
    (records all outputDir compact).keep t s = t.keepRecord outputDir compact s := by
  cases outputDir <;> rfl

/-- A batch stops at the first record that cannot be kept, and counts the schemas that fail before. -/
theorem batch_meets (p : Profile) (all : List String) (outputDir : Option String) (compact : Bool) (t : FileTree)
    (paths : List String) :
    ((batch p outputDir compact t paths).1.fault ≠ none ↔
      (records all outputDir compact).Meets p ((records all outputDir compact).StuckAt p) t paths) ∧
    ((batch p outputDir compact t paths).1.fault = none →
      ((batch p outputDir compact t paths).1.failed ≠ 0 ↔
        (records all outputDir compact).Meets p (FailsAt p) t paths)) := by
  induction t, paths using batch_induction p outputDir compact with
  | nil t =>
    exact ⟨iff_of_false (not_not_intro rfl) not_meets_nil, fun _ => iff_of_false (not_not_intro rfl) not_meets_nil⟩
  | @failed t path e hcompiled rest ih =>
    have hstep : (records all outputDir compact).Step p t path t := .failed hcompiled
    have hstuck : ¬ (records all outputDir compact).StuckAt p t path := step_iff_not_stuck.1 ⟨t, hstep⟩
    rw [batch_failed hcompiled, meets_cons_of_step hstep, meets_cons_of_step hstep, or_iff_right hstuck]
    refine ⟨ih.1, fun _ => iff_of_true ?_ (.inl ⟨e, hcompiled⟩)⟩
    simp only [RecordRun.after]
    omega
  | @stuck t path s fault hcompiled hkept rest =>
    obtain ⟨e, hbatch⟩ := batch_stuck hcompiled hkept rest
    rw [← keep_records all] at hkept
    rw [hbatch]
    exact ⟨iff_of_true (Option.some_ne_none e) (meets_cons.2 (.inl ⟨s, fault, hcompiled, hkept⟩)), nofun⟩
  | @kept t path s t₁ hcompiled hkept rest ih =>
    have hstep : (records all outputDir compact).Step p t path t₁ :=
      .kept hcompiled ((keep_records all outputDir compact t s).trans hkept)
    have hstuck : ¬ (records all outputDir compact).StuckAt p t path := step_iff_not_stuck.1 ⟨t₁, hstep⟩
    have hpassed : ¬ FailsAt p t path := fun ⟨e, herror⟩ => nomatch hcompiled.symm.trans herror
    rw [batch_kept hcompiled hkept, meets_cons_of_step hstep, meets_cons_of_step hstep, or_iff_right hstuck,
      or_iff_right hpassed]
    simpa only [RecordRun.after, Nat.zero_add] using ih

theorem records_tree (p : Profile) (schemas : List String) (outputDir : Option String) (compact : Bool) (t : FileTree) :
    ∃ o t', writeRecords (m := StateM FileTree) p schemas outputDir compact t = (o, t') ∧
      (records schemas outputDir compact).Ends p t o.ending := by
  rw [writeRecords_tree]
  split
  · next e t₁ hprepare =>
    refine ⟨_, _, rfl, .stopped ?_⟩
    have hnone : ¬ ∃ t₀, t.prepare (records schemas outputDir compact).directory? = (none, t₀) := by
      rintro ⟨t₀, hprepare'⟩
      cases hprepare.symm.trans hprepare'
    rw [prepare_eq_none_iff, not_not] at hnone
    obtain ⟨dir, fault, hdir, hrefused⟩ := hnone
    exact .directory hdir hrefused
  · next t₁ hprepare =>
    refine ⟨_, _, rfl, ?_⟩
    obtain ⟨hstuck, hfailed⟩ := batch_meets p schemas outputDir compact t₁ schemas
    cases hfault : (batch p outputDir compact t₁ schemas).1.fault with
    | some e =>
      rw [RecordRun.outcome, hfault]
      exact .stopped (.output hprepare (hstuck.1 (hfault ▸ Option.some_ne_none e)))
    | none =>
      rw [RecordRun.outcome_eq_ok.2 ⟨hfault, rfl⟩]
      refine ends_of_prepare hprepare (mt hstuck.2 (not_not_intro hfault)) (fun hmeets => ?_) fun hmeets => ?_
      · exact if_neg ((hfailed hfault).2 hmeets)
      · exact if_pos (not_not.1 (mt (hfailed hfault).1 hmeets))

/-! ## Reports -/

/-- While no turn changes the files, all schemas find the same. -/
theorem meets_of_unchanged {P : FileTree → String → Prop} (h : ∀ path ∈ paths, c.Step p t path t) :
    c.Meets p P t paths ↔ ∃ path ∈ paths, P t path := by
  induction paths with
  | nil => simp [not_meets_nil]
  | cons path rest ih =>
    obtain ⟨hstep, hrest⟩ := List.forall_mem_cons.1 h
    rw [meets_cons_of_step hstep, ih hrest, List.exists_mem_cons_iff]

theorem step_check (all : List String) (json : Bool) (p : Profile) (t : FileTree) (path : String) :
    (check all json).Step p t path t := by
  cases hcompiled : t.compiled p path with
  | error e => exact .failed hcompiled
  | ok s => exact .kept hcompiled rfl

theorem report_tree (p : Profile) (schemas : List String) (json : Bool) (t : FileTree) :
    ∃ o t', showReport (m := StateM FileTree) p schemas json t = (o, t') ∧ (check schemas json).Ends p t o.ending := by
  obtain ⟨report, hcheck, -, hfailures, -⟩ := checkEach_tree p schemas.length t schemas
  have hsteps : ∀ path ∈ schemas, (check schemas json).Step p t path t :=
    fun path _ => step_check schemas json p t path
  have hfails : report.failures = [] ↔ ¬ (check schemas json).Meets p (FailsAt p) t schemas := by
    rw [meets_of_unchanged hsteps, hfailures, List.filterMap_eq_nil_iff, not_exists]
    refine forall_congr' fun path => ?_
    rw [failure?_eq_none, not_and, FailsAt]
    cases t.compiled p path <;> simp
  simp only [showReport, checkSchemas, bind, StateT.bind, hcheck]
  refine ⟨_, _, rfl, ends_of_prepare rfl ?_ (fun hmeets => ?_) fun hmeets => ?_⟩
  · rw [Command.schemas, meets_of_unchanged hsteps]
    rintro ⟨path, hpath, hstuck⟩
    exact step_iff_not_stuck.1 ⟨t, hsteps path hpath⟩ hstuck
  · exact if_neg (mt hfails.1 (not_not_intro hmeets))
  · exact if_pos (hfails.2 hmeets)

/-! ## Descriptors -/

theorem meets_singleton {P : FileTree → String → Prop} : c.Meets p P t [path] ↔ P t path := by
  rw [meets_cons, or_iff_left]
  rintro ⟨t₁, -, hmeets⟩
  exact not_meets_nil hmeets

/-- The descriptor of a schema that compiles is kept, or stops the command. -/
theorem writeDescriptor_kept (h : t.compiled p path = .ok s) (json : Bool) (output : Option String) :
    ∃ o t', writeDescriptor (m := StateM FileTree) p path json output t = (o, t') ∧
      ((embed path json output).keep t s = .ok t' ∧ o.ending = .ok 0 ∨
        ∃ fault e, (embed path json output).keep t s = .error fault ∧ o.ending = .error e) := by
  cases output with
  | none => exact ⟨_, _, writeDescriptor_shown h json, .inl ⟨rfl, rfl⟩⟩
  | some out =>
    have hkeep : (embed path json (some out)).keep t s = t.written out (s.descriptorFile json) := rfl
    rw [compiled_eq] at h
    rw [hkeep, Service.descriptorFile]
    simp only [writeDescriptor, bind, StateT.bind, compileFile_tree, h, writeText, FileSystem.write,
      FileTree.write_eq_written]
    cases t.written out (Utf8.encode ((if json then s.json else s.cArray) ++ "\n").toList) with
    | ok t' => exact ⟨_, _, rfl, .inl ⟨rfl, rfl⟩⟩
    | error fault => exact ⟨_, _, rfl, .inr ⟨fault, _, rfl, rfl⟩⟩

theorem descriptor_tree (p : Profile) (schema : String) (json : Bool) (output : Option String) (t : FileTree) :
    ∃ o t', writeDescriptor (m := StateM FileTree) p schema json output t = (o, t') ∧
      (embed schema json output).Ends p t o.ending := by
  cases hcompiled : t.compiled p schema with
  | error e =>
    refine ⟨_, _, writeDescriptor_failed hcompiled json output, ends_of_prepare rfl ?_ (fun _ => rfl) ?_⟩
    · rw [schemas, meets_singleton]
      rintro ⟨s, fault, hok, -⟩
      cases hcompiled.symm.trans hok
    · rw [schemas, meets_singleton]
      exact fun hpassed => absurd ⟨e, hcompiled⟩ hpassed
  | ok s =>
    obtain ⟨o, t', hrun, ⟨hkept, hending⟩ | ⟨fault, e, hkept, hending⟩⟩ := writeDescriptor_kept hcompiled json output
    · refine ⟨o, t', hrun, hending ▸ ends_of_prepare rfl ?_ ?_ fun _ => rfl⟩
      · rw [schemas, meets_singleton]
        exact step_iff_not_stuck.1 ⟨t', .kept hcompiled hkept⟩
      · rw [schemas, meets_singleton]
        rintro ⟨e, herror⟩
        cases hcompiled.symm.trans herror
    · refine ⟨o, t', hrun, hending ▸ .stopped (.output rfl ?_)⟩
      rw [schemas, meets_singleton]
      exact ⟨s, fault, hcompiled, hkept⟩

/-! ## Invocations -/

theorem run_tree (c : Command) (p : Profile) (t : FileTree) :
    ∃ o t', c.run (m := StateM FileTree) p t = (o, t') ∧ c.Ends p t o.ending := by
  cases c with
  | records schemas outputDir compact => exact records_tree p schemas outputDir compact t
  | check schemas json => exact report_tree p schemas json t
  | embed schema json output => exact descriptor_tree p schema json output t

end Command

theorem Outcome.code_exit_of_ok {o : Outcome} {code : UInt8} (h : o.ending = .ok code) : o.exit.code = code := by
  rw [exit, h]

theorem Outcome.code_exit_of_error {o : Outcome} {e : OperationalError} (h : o.ending = .error e) :
    o.exit.code = 2 := by
  rw [exit, h]

/-- A profile that is rejected ends the run before anything else is done. -/
theorem Invocation.run_of_rejects {i : Invocation} (h : t.RejectsProfile i.profile) :
    ∃ exit, i.run (m := StateM FileTree) t = (exit, t) ∧ exit.code = 2 ∧ exit.stdout = "" := by
  obtain ⟨log, e, hload⟩ := loadProfile_of_rejects h
  simp only [Invocation.run, bind, StateT.bind, hload]
  exact ⟨_, rfl, rfl, rfl⟩

theorem Invocation.run_of_accepts {i : Invocation} (h : t.AcceptsProfile i.profile p) :
    ∃ exit t', i.run (m := StateM FileTree) t = (exit, t') ∧ (exit.code = 2 ↔ i.command.Stops p t) ∧
      (¬ i.command.Stops p t →
        (exit.code = 1 ↔ i.command.SomeFails p t) ∧ (exit.code = 0 ↔ i.command.AllCompile p t)) := by
  obtain ⟨log, hload⟩ := loadProfile_of_accepts h
  obtain ⟨o, t', hrun, hends⟩ := i.command.run_tree p t
  simp only [Invocation.run, bind, StateT.bind, hload, hrun]
  refine ⟨_, _, rfl, ?_⟩
  have hending : (o.after (.starting version :: log) "").ending = o.ending := rfl
  generalize o.ending = ending at hends hending
  cases hends with
  | stopped stops =>
    rw [Outcome.code_exit_of_error hending]
    exact ⟨iff_of_true rfl stops, fun goesOn => absurd stops goesOn⟩
  | failed goesOn fails =>
    rw [Outcome.code_exit_of_ok hending, Command.allCompile_iff goesOn]
    exact ⟨iff_of_false (by decide) goesOn,
      fun _ => ⟨iff_of_true rfl fails, iff_of_false (by decide) (not_not_intro fails)⟩⟩
  | passed goesOn compile =>
    rw [Outcome.code_exit_of_ok hending, Command.allCompile_iff goesOn]
    exact ⟨iff_of_false (by decide) goesOn, fun _ => ⟨iff_of_false (by decide) compile, iff_of_true rfl compile⟩⟩

/-- What the exit code of an invocation tells: 2, that the profile is rejected or that something cannot be made; else 1,
that a schema fails at its turn, and 0, that all compile. A rejected profile ends it before anything else is done. -/
theorem exit_codes {args : List String} {i : Invocation} (h : CommandLine.read args = .ok i) (t : FileTree) :
    ∃ exit log t', CommandLine.run (m := StateM FileTree) args t = ((exit, log), t') ∧
      (exit.code = 2 ↔ t.RejectsProfile i.profile ∨ ∃ p, t.AcceptsProfile i.profile p ∧ i.command.Stops p t) ∧
      (∀ p, t.AcceptsProfile i.profile p → ¬ i.command.Stops p t →
        (exit.code = 1 ↔ i.command.SomeFails p t) ∧ (exit.code = 0 ↔ i.command.AllCompile p t)) ∧
      (t.RejectsProfile i.profile → exit.stdout = "" ∧ t' = t) := by
  have hrun {exit : Exit} {t' : FileTree} (hi : i.run (m := StateM FileTree) t = (exit, t')) :
      CommandLine.run (m := StateM FileTree) args t = ((exit, exit.shownLog i.verbosity), t') := by
    simp only [CommandLine.run, h, bind, StateT.bind, hi]
    rfl
  rcases rejects_or_accepts t i.profile with hrejects | ⟨p, haccepts⟩
  · obtain ⟨exit, hi, hcode, hstdout⟩ := Invocation.run_of_rejects hrejects
    refine ⟨exit, _, t, hrun hi, iff_of_true hcode (.inl hrejects), fun p haccepts => ?_, fun _ => ⟨hstdout, rfl⟩⟩
    exact absurd haccepts (not_accepts_of_rejects hrejects)
  · obtain ⟨exit, t', hi, hstops, hgoesOn⟩ := Invocation.run_of_accepts haccepts
    have hrejects : ¬ t.RejectsProfile i.profile := fun hrejects => not_accepts_of_rejects hrejects haccepts
    refine ⟨exit, _, t', hrun hi, ?_, fun p' haccepts' => ?_, fun h => absurd h hrejects⟩
    · rw [hstops, or_iff_right hrejects]
      constructor
      · exact fun hstops => ⟨p, haccepts, hstops⟩
      · rintro ⟨p', haccepts', hstops⟩
        rwa [haccepts.unique haccepts']
    · rw [← haccepts.unique haccepts']
      exact hgoesOn

/-- A schema that is missing does not end a command, but a record without a directory to go to does; and a profile that
is missing leaves nothing to be done. -/
theorem exit_codes_lamps :
    (CommandLine.read ["ir", "none.json", "b.json", "--output-dir", "out"]
        = .ok ⟨0, none, .records ["none.json", "b.json"] (some "out") false⟩ ∧
      (Command.records ["none.json", "b.json"] (some "out") false).Stops .standard (lamps "Desk Lamp" "more/Lamp")) ∧
    CommandLine.read ["check", "a.json", "--config", "codec.yaml"]
        = .ok ⟨0, some "codec.yaml", .check ["a.json"] false⟩ ∧
      ∃ exit log, CommandLine.run (m := StateM FileTree) ["check", "a.json", "--config", "codec.yaml"]
        (lamps "Desk Lamp" "more/Lamp") = ((exit, log), lamps "Desk Lamp" "more/Lamp") ∧
        exit.code = 2 ∧ exit.stdout = "" := by
  have hrecords : CommandLine.read ["ir", "none.json", "b.json", "--output-dir", "out"]
      = .ok ⟨0, none, .records ["none.json", "b.json"] (some "out") false⟩ := eq_ok_of_toOption (by decide +kernel)
  have hcheck : CommandLine.read ["check", "a.json", "--config", "codec.yaml"]
      = .ok ⟨0, some "codec.yaml", .check ["a.json"] false⟩ := eq_ok_of_toOption (by decide +kernel)
  refine ⟨⟨hrecords, ?_⟩, hcheck, ?_⟩
  · obtain ⟨exit, log, t', hrun, hstops, -, -⟩ := exit_codes hrecords (lamps "Desk Lamp" "more/Lamp")
    have hcode : (CommandLine.run (m := StateM FileTree) ["ir", "none.json", "b.json", "--output-dir", "out"]
        (lamps "Desk Lamp" "more/Lamp")).1.1.code = 2 := by decide +kernel
    rw [hrun] at hcode
    obtain hrejects | ⟨p, haccepts, hstops⟩ := hstops.1 hcode
    · cases hrejects
    · cases haccepts
      exact hstops
  · obtain ⟨exit, log, t', hrun, hcode, -, hnothing⟩ := exit_codes hcheck (lamps "Desk Lamp" "more/Lamp")
    have hmissing : (lamps "Desk Lamp" "more/Lamp").text "codec.yaml" = .error .notFound := by rfl
    have hrejects := RejectsProfile.unreadable hmissing
    obtain ⟨hstdout, rfl⟩ := hnothing hrejects
    exact ⟨exit, log, hrun, hcode.2 (.inl hrejects), hstdout⟩

end ServiceSchema
