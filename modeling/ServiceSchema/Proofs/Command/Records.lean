import ServiceSchema.Proofs.Command
import ServiceSchema.Proofs.Service.Record

/-! # Where records go
A record stays in the output directory unless the type of its service leads out of there, and nothing else is written.
Services of one class without slashes in their types have one file, which holds the record of the last. -/
namespace ServiceSchema
open FileTree

variable {p : Profile} {compact : Bool} {t t' t₁ : FileTree} {dir path : String} {schemas : List String}
  {outputDir : Option String} {s : Service} {q d : Place}

/-! ## One record -/

theorem plain_recordName (h : '/' ∉ s.serviceType.toList) : Path.Plain (recordName s) := by
  have hchars : (recordName s).toList
      = (s.serviceType.toList.filter fun c => !Identifier.isDropped c) ++ "Base.ir.json".toList := by
    simp [recordName, Service.className, Identifier.className, Identifier.derive]
  have hlength : 2 < (recordName s).toList.length := by
    rw [hchars, List.length_append]
    exact Nat.lt_add_left _ (by decide)
  refine ⟨?_, ?_⟩
  · rw [hchars, List.mem_append, not_or]
    exact ⟨fun hmem => h (List.mem_filter.1 hmem).1, by decide⟩
  · rw [Path.step?_of_length hlength, String.ofList_toList]

/-- The file of a record tells the type of the service. -/
theorem serviceType_of_recordFile {s' : Service} (h : s.recordFile compact = s'.recordFile compact) :
    s.serviceType = s'.serviceType := by
  have hchars := congrArg Utf8.decode? h
  rw [Service.recordFile, Service.recordFile, Utf8.decode?_encode, Utf8.decode?_encode, Option.some_inj,
    String.toList_inj, String.append_left_inj] at hchars
  have hread (s : Service) : Json.read (s.render compact) = .ok s.record.normalize := by
    obtain ⟨hcompact, hpretty⟩ := Json.read_of_plain s.plain_record
    cases compact with
    | true => exact hcompact
    | false => exact hpretty
  have hnormal := Except.ok.inj ((hread s).symm.trans ((congrArg Json.read hchars).trans (hread s')))
  obtain ⟨ms, hms⟩ : ∃ ms, s.record.normalize = .object ms := ⟨_, rfl⟩
  have htype := (Service.recordedIn_of_normalize hms).serviceType
  rw [(Service.recordedIn_of_normalize (hnormal.symm.trans hms)).serviceType] at htype
  exact (Json.Value.string.inj (Option.some.inj htype)).symm

theorem keeps_keepRecord (h : t.keepRecord outputDir compact s = .ok t₁) : Keeps t t₁ := by
  cases outputDir with
  | none =>
    cases h
    exact Keeps.refl t
  | some dir =>
    rw [keepRecord] at h
    obtain ⟨q, hopened, hfile, rfl⟩ := written_eq_ok.1 h
    exact keeps_put (ne_nil_of_opened? hopened) fun hdirectory => absurd hdirectory hfile

theorem keeps_batch (p : Profile) (outputDir : Option String) (compact : Bool) (t : FileTree) (schemas : List String) :
    Keeps t (batch p outputDir compact t schemas).2 := by
  induction t, schemas using batch_induction p outputDir compact with
  | nil t => exact Keeps.refl t
  | failed hcompiled rest ih =>
    rw [batch_failed hcompiled]
    exact ih
  | stuck hcompiled hkept rest =>
    obtain ⟨e, hbatch⟩ := batch_stuck hcompiled hkept rest
    rw [hbatch]
    exact Keeps.refl _
  | kept hcompiled hkept rest ih =>
    rw [batch_kept hcompiled hkept]
    exact (keeps_keepRecord hkept).trans ih

theorem kept_eq_ok : t.keepRecord (some dir) compact s = .ok t₁ ↔
    ∃ q, t.opened? (Path.join dir (recordName s)) = some q ∧ t.find? q ≠ some .directory ∧
      t₁ = t.put q (.file (s.recordFile compact)) := by
  rw [keepRecord]
  exact written_eq_ok

/-- The record of a service without a slash in its type comes to the directory, under its own name. -/
theorem exists_kept (hslash : '/' ∉ s.serviceType.toList) (h : t.keepRecord (some dir) compact s = .ok t₁) :
    ∃ d, t.opened? (Path.join dir (recordName s)) = some (recordName s :: d) ∧ t.directory? dir = some d ∧
      t₁ = t.put (recordName s :: d) (.file (s.recordFile compact)) := by
  obtain ⟨q, hopened, -, rfl⟩ := kept_eq_ok.1 h
  obtain ⟨d, hdirectory, rfl⟩ := opened?_join_plain (plain_recordName hslash) hopened
  exact ⟨d, hopened, hdirectory, rfl⟩

/-! ## Batches -/

def IsFileIn (t : FileTree) (dir : String) (q : Place) : Prop :=
  ∃ d content, t.directory? dir = some d ∧ d <:+ q ∧ t.find? q = some (.file content)

/-- The services that a batch came to have record names that lead on from the output directory and never up. -/
def Contained (turns : List (String × Except SchemaError Service)) : Prop :=
  ∀ turn ∈ turns, ∀ s ∈ turn.2.toOption, Path.Inward (recordName s)

def Slashless (turns : List (String × Except SchemaError Service)) : Prop :=
  ∀ turn ∈ turns, ∀ s ∈ turn.2.toOption, '/' ∉ s.serviceType.toList

instance (turns : List (String × Except SchemaError Service)) : Decidable (Contained turns) :=
  inferInstanceAs (Decidable (∀ turn ∈ turns, ∀ s ∈ turn.2.toOption, Path.Inward (recordName s)))

instance (turns : List (String × Except SchemaError Service)) : Decidable (Slashless turns) :=
  inferInstanceAs (Decidable (∀ turn ∈ turns, ∀ s ∈ turn.2.toOption, '/' ∉ s.serviceType.toList))

theorem Slashless.contained {turns : List (String × Except SchemaError Service)} (h : Slashless turns) :
    Contained turns :=
  fun turn hmem s hs => (plain_recordName (h turn hmem s hs)).inward

/-- A batch changes files in its output directory, and nothing else. -/
theorem changed_by_batch (p : Profile) (dir : String) (compact : Bool) (t : FileTree) (schemas : List String)
    (hcontained : Contained (t.turns p (some dir) compact schemas)) (q : Place) :
    (batch p (some dir) compact t schemas).2.find? q = t.find? q ∨
      IsFileIn (batch p (some dir) compact t schemas).2 dir q := by
  induction t, schemas using batch_induction p (some dir) compact with
  | nil t => exact .inl rfl
  | failed hcompiled rest ih =>
    rw [turns_failed hcompiled] at hcontained
    rw [batch_failed hcompiled]
    exact ih (List.forall_mem_cons.1 hcontained).2
  | stuck hcompiled hkept rest =>
    obtain ⟨e, hbatch⟩ := batch_stuck hcompiled hkept rest
    rw [hbatch]
    exact .inl rfl
  | @kept t path s t₁ hcompiled hkept rest ih =>
    rw [turns_kept hcompiled hkept] at hcontained
    rw [batch_kept hcompiled hkept]
    obtain ⟨hhead, htail⟩ := List.forall_mem_cons.1 hcontained
    rcases ih htail with hsame | hfile
    -- what the rest of the batch left alone is as this record left it
    · have hkeeps := (keeps_keepRecord hkept).trans (keeps_batch p (some dir) compact t₁ rest)
      obtain ⟨place, hopened, -, rfl⟩ := kept_eq_ok.1 hkept
      obtain ⟨d, hdirectory, hsuffix⟩ := opened?_join_inward (hhead s rfl) hopened
      rw [find?_put t (ne_nil_of_opened? hopened)] at hsame
      split at hsame
      · next hq =>
        subst hq
        exact .inr ⟨d, _, directory?_of_keeps hkeeps hdirectory, hsuffix, hsame⟩
      · exact .inl hsame
    · exact .inr hfile

/-- A file that is read from elsewhere stays as it is. -/
theorem read_of_outside (hkeeps : Keeps t t') (hchanged : ∀ q, t'.find? q = t.find? q ∨ IsFileIn t' dir q)
    (houtside : ¬ t'.LiesIn path dir) {content : List UInt8} (hread : t.read path = .ok content) :
    t'.read path = .ok content := by
  obtain ⟨q, hopened, hfile⟩ := read_eq_ok.1 hread
  have hopened' := opened?_of_keeps hkeeps hopened
  rcases hchanged q with hsame | ⟨d, _, hdirectory, hsuffix, -⟩
  · exact read_eq_ok.2 ⟨q, hopened', hsame.trans hfile⟩
  · exact absurd ⟨q, hopened', d, hdirectory, hsuffix⟩ houtside

theorem compiled_of_outside (hkeeps : Keeps t t') (hchanged : ∀ q, t'.find? q = t.find? q ∨ IsFileIn t' dir q)
    (houtside : ¬ t'.LiesIn path dir) (hcompiled : t.compiled p path = .ok s) : t'.compiled p path = .ok s := by
  obtain ⟨content, hread⟩ := exists_read_of_compiled hcompiled
  have hread' := read_of_outside hkeeps hchanged houtside hread
  rw [compiled_congr (hread'.trans hread.symm), hcompiled]

/-- A record stays as it is if the records of its class that follow are the same. -/
theorem find?_record_of_batch {name : String} {content : List UInt8} (hdirectory : t.directory? dir = some d)
    (hfile : t.find? (name :: d) = some (.file content)) (hslash : Slashless (t.turns p (some dir) compact schemas))
    (hsame : ∀ path s, (path, .ok s) ∈ t.turns p (some dir) compact schemas → recordName s = name →
      s.recordFile compact = content) :
    (batch p (some dir) compact t schemas).2.find? (name :: d) = some (.file content) := by
  induction t, schemas using batch_induction p (some dir) compact with
  | nil t => exact hfile
  | failed hcompiled rest ih =>
    rw [turns_failed hcompiled] at hslash hsame
    rw [batch_failed hcompiled]
    exact ih hdirectory hfile (List.forall_mem_cons.1 hslash).2
      fun path s hmem => hsame path s (List.mem_cons_of_mem _ hmem)
  | stuck hcompiled hkept rest =>
    obtain ⟨e, hbatch⟩ := batch_stuck hcompiled hkept rest
    rw [hbatch]
    exact hfile
  | @kept t path s t₁ hcompiled hkept rest ih =>
    rw [turns_kept hcompiled hkept] at hslash hsame
    rw [batch_kept hcompiled hkept]
    obtain ⟨hhead, htail⟩ := List.forall_mem_cons.1 hslash
    refine ih (directory?_of_keeps (keeps_keepRecord hkept) hdirectory) ?_ htail
      fun path s hmem => hsame path s (List.mem_cons_of_mem _ hmem)
    obtain ⟨d', -, hdirectory', rfl⟩ := exists_kept (hhead s rfl) hkept
    cases hdirectory.symm.trans hdirectory'
    rw [find?_put t (List.cons_ne_nil _ _)]
    split
    · next hq => rw [hsame path s List.mem_cons_self (List.cons.inj hq).1.symm]
    · exact hfile

/-- What becomes of the record of a service, if no other record of its class comes after it. -/
structure Recorded (p : Profile) (dir : String) (compact : Bool) (t : FileTree) (path : String) (s : Service)
    (after : List (String × Except SchemaError Service)) : Prop where
  compiled : t.compiled p path = .ok s
  read : (∀ later s', (later, .ok s') ∈ after → s'.className = s.className →
    s'.recordFile compact = s.recordFile compact) → t.read (Path.join dir (recordName s)) = .ok (s.recordFile compact)

theorem recorded_by_batch (hfault : (batch p (some dir) compact t schemas).1.fault = none)
    (hslash : Slashless (t.turns p (some dir) compact schemas))
    (houtside : ∀ path ∈ schemas, ¬ (batch p (some dir) compact t schemas).2.LiesIn path dir)
    {before after : List (String × Except SchemaError Service)}
    (hturns : t.turns p (some dir) compact schemas = before ++ (path, .ok s) :: after) :
    Recorded p dir compact (batch p (some dir) compact t schemas).2 path s after := by
  induction t, schemas using batch_induction p (some dir) compact generalizing before with
  | nil t => cases before <;> cases hturns
  | failed hcompiled rest ih =>
    rw [batch_failed hcompiled] at hfault houtside ⊢
    rw [turns_failed hcompiled] at hslash hturns
    rcases List.cons_eq_append_iff.1 hturns with ⟨rfl, hfirst⟩ | ⟨before, rfl, hlater⟩
    · cases hfirst
    · exact ih hfault (List.forall_mem_cons.1 hslash).2 (List.forall_mem_cons.1 houtside).2 hlater
  | stuck hcompiled hkept rest =>
    obtain ⟨e, hbatch⟩ := batch_stuck hcompiled hkept rest
    rw [hbatch] at hfault
    cases hfault
  | @kept t first s' t₁ hcompiled hkept rest ih =>
    have hchanged := changed_by_batch p dir compact t (first :: rest) hslash.contained
    have hkeeps := keeps_batch p (some dir) compact t (first :: rest)
    have hkeeps' := keeps_batch p (some dir) compact t₁ rest
    rw [batch_kept hcompiled hkept] at hfault houtside hchanged hkeeps ⊢
    rw [turns_kept hcompiled hkept] at hslash hturns
    obtain ⟨hhead, htail⟩ := List.forall_mem_cons.1 hslash
    obtain ⟨houtsideHead, houtsideTail⟩ := List.forall_mem_cons.1 houtside
    rcases List.cons_eq_append_iff.1 hturns with ⟨rfl, hfirst⟩ | ⟨before, rfl, hlater⟩
    · cases hfirst
      refine ⟨compiled_of_outside hkeeps hchanged houtsideHead hcompiled, fun hsame => ?_⟩
      obtain ⟨d, hopened, hdirectory, rfl⟩ := exists_kept (hhead s rfl) hkept
      -- the record is read after the whole batch, in which only its own class can write there
      refine read_eq_ok.2 ⟨recordName s :: d, opened?_of_keeps hkeeps hopened, ?_⟩
      refine find?_record_of_batch (directory?_of_keeps (keeps_keepRecord hkept) hdirectory)
        (find?_put_self t (List.cons_ne_nil _ _) _) htail fun later s' hmem hname => ?_
      exact hsame later s' hmem (by simpa [recordName] using hname)
    · exact ih hfault htail houtsideTail hlater

/-! ## Whole commands -/

theorem made_of_prepare (t : FileTree) (dir : String) :
    (t.prepare (some dir)).2 = t ∨ ∃ r, Path.read dir = .ok r ∧ Made r t (t.prepare (some dir)).2 := by
  have hmade := made_of_makeAll t dir
  rw [prepare]
  split <;> next heq => rwa [heq] at hmade

theorem read_of_prepare {content : List UInt8} (dir : String) (h : t.read path = .ok content) :
    (t.prepare (some dir)).2.read path = .ok content := by
  rcases made_of_prepare t dir with hsame | ⟨r, -, hmade⟩
  · rw [hsame, h]
  · obtain ⟨q, hopened, hfile⟩ := read_eq_ok.1 h
    exact read_eq_ok.2 ⟨q, opened?_of_keeps hmade.keeps hopened, hmade.find? hfile⟩

/-- Directories that are made along a path are found on it, also when files have been written since. -/
theorem changed_by_prepare (t t' : FileTree) (dir : String) (q : Place) (hkeeps : Keeps (t.prepare (some dir)).2 t')
    (hq : (t.prepare (some dir)).2.find? q ≠ t.find? q) :
    t.find? q = none ∧ t'.find? q = some .directory ∧ ∃ r, Path.read dir = .ok r ∧ t'.LeadsThrough r q := by
  rcases made_of_prepare t dir with hsame | ⟨r, hread, hmade⟩
  · exact absurd (by rw [hsame]) hq
  · obtain ⟨hnone, hdirectory, hleads⟩ := (hmade.found q).resolve_left hq
    exact ⟨hnone, hkeeps.directory hdirectory, r, hread, hleads.of_keeps hkeeps⟩

/-- However a command ends, it has changed nothing but its output directory, unless a type leads out of there. All that
is written are files in that directory, and all that is made are directories on the way to it. -/
theorem records_confined {o : Outcome}
    (h : writeRecords (m := StateM FileTree) p schemas (some dir) compact t = (o, t'))
    (hcontained : Contained (t.recordTurns p (some dir) compact schemas)) {q : Place}
    (hq : t'.find? q ≠ t.find? q) : IsFileIn t' dir q ∨
      t.find? q = none ∧ t'.find? q = some .directory ∧ ∃ r, Path.read dir = .ok r ∧ t'.LeadsThrough r q := by
  have hprepared := changed_by_prepare t t' dir q
  rw [writeRecords_tree] at h
  rw [recordTurns] at hcontained
  split at h
  · next e t₁ hprepare =>
    cases h
    rw [hprepare] at hprepared
    exact .inr (hprepared (Keeps.refl _) hq)
  · next t₁ hprepare =>
    cases h
    rw [hprepare] at hprepared hcontained
    rcases changed_by_batch p dir compact t₁ schemas hcontained q with hsame | hrecord
    · exact .inr (hprepared (keeps_batch p (some dir) compact t₁ schemas) (hsame ▸ hq))
    · exact .inl hrecord

def lampRun (dir first second : String) : Outcome × FileTree :=
  writeRecords (m := StateM FileTree) .standard ["a.json", "b.json"] (some dir) true (lamps first second)

theorem lampRun_eq (dir first second : String) :
    writeRecords (m := StateM FileTree) .standard ["a.json", "b.json"] (some dir) true (lamps first second)
      = ((lampRun dir first second).1, (lampRun dir first second).2) :=
  rfl

/-- The second record cannot be written, since there is no directory for it in the output directory. -/
theorem records_confined_lamps : (lampRun "out/all" "Desk Lamp" "more/Lamp").1.ending.toOption = none ∧
    Contained ((lamps "Desk Lamp" "more/Lamp").recordTurns .standard (some "out/all") true ["a.json", "b.json"]) ∧
    ∀ q ∈ [["out"], ["DeskLampBase.ir.json", "all", "out"]],
      (lampRun "out/all" "Desk Lamp" "more/Lamp").2.find? q ≠ (lamps "Desk Lamp" "more/Lamp").find? q ∧
      (IsFileIn (lampRun "out/all" "Desk Lamp" "more/Lamp").2 "out/all" q ∨
        (lamps "Desk Lamp" "more/Lamp").find? q = none ∧
          (lampRun "out/all" "Desk Lamp" "more/Lamp").2.find? q = some .directory ∧
          ∃ r, Path.read "out/all" = .ok r ∧ (lampRun "out/all" "Desk Lamp" "more/Lamp").2.LeadsThrough r q) := by
  have hrun : (lampRun "out/all" "Desk Lamp" "more/Lamp").1.ending.toOption = none ∧
      Contained ((lamps "Desk Lamp" "more/Lamp").recordTurns .standard (some "out/all") true ["a.json", "b.json"]) ∧
      ∀ q ∈ [["out"], ["DeskLampBase.ir.json", "all", "out"]],
        (lampRun "out/all" "Desk Lamp" "more/Lamp").2.find? q ≠ (lamps "Desk Lamp" "more/Lamp").find? q := by
    decide +kernel
  obtain ⟨hending, hcontained, hchanged⟩ := hrun
  exact ⟨hending, hcontained, fun q hq =>
    ⟨hchanged q hq, records_confined (lampRun_eq _ _ _) hcontained (hchanged q hq)⟩⟩

/-- A type that leads out of the output directory takes its record with it. -/
theorem record_escapes : (lampRun "out" "../Lamp" "Lamp").1.ending = .ok 0 ∧
    (lampRun "out" "../Lamp" "Lamp").2.directory? "out" = some ["out"] ∧
    ∃ q content, ¬ ["out"] <:+ q ∧ (lamps "../Lamp" "Lamp").find? q = none ∧
      (lampRun "out" "../Lamp" "Lamp").2.find? q = some (.file content) := by
  have hrun : (lampRun "out" "../Lamp" "Lamp").1.ending.toOption = some 0 ∧
      (lampRun "out" "../Lamp" "Lamp").2.directory? "out" = some ["out"] ∧
      ((lampRun "out" "../Lamp" "Lamp").2.find? ["LampBase.ir.json"]).isSome ∧
      (lampRun "out" "../Lamp" "Lamp").2.find? ["LampBase.ir.json"] ≠ some .directory := by
    decide +kernel
  obtain ⟨hending, hdirectory, hsome, hfile⟩ := hrun
  obtain ⟨item, hitem⟩ := Option.isSome_iff_exists.1 hsome
  refine ⟨eq_ok_of_toOption hending, hdirectory, ["LampBase.ir.json"], ?_⟩
  cases item with
  | directory => exact absurd hitem hfile
  | file content => exact ⟨content, by decide, by decide +kernel, hitem⟩

/-- After a command in which nothing failed, the schemas are as before, and the record of each is in the output
directory, unless a later record of the same class is another one. -/
theorem records_kept {o : Outcome}
    (h : writeRecords (m := StateM FileTree) p schemas (some dir) compact t = (o, t')) (hcode : o.ending = .ok 0)
    (hslash : Slashless (t.recordTurns p (some dir) compact schemas))
    (houtside : ∀ path ∈ schemas, ¬ t'.LiesIn path dir) :
    (∀ path ∈ schemas, ∀ content, t.read path = .ok content → t'.read path = .ok content) ∧
    (t.recordTurns p (some dir) compact schemas).map Prod.fst = schemas ∧
    ∀ before path result after, t.recordTurns p (some dir) compact schemas = before ++ (path, result) :: after →
      ∃ s, result = .ok s ∧ Recorded p dir compact t' path s after := by
  obtain ⟨t₁, hprepare, rfl, hfault, hfailed⟩ := writeRecords_eq_ok h hcode
  rw [recordTurns_of_prepare hprepare] at hslash ⊢
  refine ⟨fun path hpath content hread => ?_, turns_of_batch hfault, fun before path result after hturns => ?_⟩
  · have hread' := read_of_prepare dir hread
    rw [hprepare] at hread'
    exact read_of_outside (keeps_batch p (some dir) compact t₁ schemas)
      (changed_by_batch p dir compact t₁ schemas hslash.contained) (houtside path hpath) hread'
  · have hnone : (batch p (some dir) compact t₁ schemas).1.failed = 0 := by
      by_cases hnone : (batch p (some dir) compact t₁ schemas).1.failed = 0
      · exact hnone
      · rw [if_neg hnone] at hfailed
        exact absurd hfailed (by decide)
    have hmem : (path, result) ∈ t₁.turns p (some dir) compact schemas := by
      rw [hturns]
      exact List.mem_append_right _ List.mem_cons_self
    have hok := failed_eq_zero.1 hnone _ hmem
    cases result with
    | error e => cases hok
    | ok s => exact ⟨s, rfl, recorded_by_batch hfault hslash houtside hturns⟩

theorem exists_pair_of_map_fst {α : Type} {l : List (String × α)} {a b : String} (h : l.map Prod.fst = [a, b]) :
    ∃ x y, l = [(a, x), (b, y)] := by
  obtain ⟨⟨_, x⟩, l', rfl, rfl, htail⟩ := List.map_eq_cons_iff.1 h
  obtain ⟨⟨_, y⟩, l'', rfl, rfl, hnil⟩ := List.map_eq_cons_iff.1 htail
  rw [List.map_eq_nil_iff] at hnil
  exact ⟨x, y, by rw [hnil]⟩

theorem records_kept_lamps : (lampRun "out" "Desk Lamp" "Wall Lamp").1.ending = .ok 0 ∧
    Slashless ((lamps "Desk Lamp" "Wall Lamp").recordTurns .standard (some "out") true ["a.json", "b.json"]) ∧
    (∀ path ∈ ["a.json", "b.json"], ¬ (lampRun "out" "Desk Lamp" "Wall Lamp").2.LiesIn path "out") ∧
    ∀ path ∈ ["a.json", "b.json"], ∃ s,
      (lampRun "out" "Desk Lamp" "Wall Lamp").2.compiled .standard path = .ok s ∧
      (lampRun "out" "Desk Lamp" "Wall Lamp").2.read (Path.join "out" (recordName s)) = .ok (s.recordFile true) := by
  have hrun : (lampRun "out" "Desk Lamp" "Wall Lamp").1.ending.toOption = some 0 ∧
      Slashless ((lamps "Desk Lamp" "Wall Lamp").recordTurns .standard (some "out") true ["a.json", "b.json"]) ∧
      (∀ path ∈ ["a.json", "b.json"], ¬ (lampRun "out" "Desk Lamp" "Wall Lamp").2.LiesIn path "out") ∧
      (((lamps "Desk Lamp" "Wall Lamp").recordTurns .standard (some "out") true ["a.json", "b.json"]).map
        fun turn => turn.2.toOption.map Service.className) = [some "DeskLampBase", some "WallLampBase"] := by
    decide +kernel
  obtain ⟨hending, hslash, houtside, hclasses⟩ := hrun
  have hcode := eq_ok_of_toOption hending
  obtain ⟨-, hpaths, hrecorded⟩ := records_kept (lampRun_eq _ _ _) hcode hslash houtside
  refine ⟨hcode, hslash, houtside, ?_⟩
  obtain ⟨r₁, r₂, hturns⟩ := exists_pair_of_map_fst hpaths
  obtain ⟨s₁, rfl, hdesk⟩ := hrecorded [] "a.json" r₁ [("b.json", r₂)] hturns
  obtain ⟨s₂, rfl, hwall⟩ := hrecorded [("a.json", .ok s₁)] "b.json" r₂ [] hturns
  rw [hturns] at hclasses
  have hdistinct : s₂.className ≠ s₁.className := by
    simp only [List.map_cons, Except.toOption, Option.map_some, List.map_nil, List.cons.injEq,
      Option.some.injEq] at hclasses
    rw [hclasses.1, hclasses.2.1]
    decide
  rw [List.forall_mem_cons, List.forall_mem_singleton]
  refine ⟨⟨s₁, hdesk.compiled, hdesk.read fun later s' hmem hclass => ?_⟩, s₂, hwall.compiled, hwall.read (by simp)⟩
  cases List.mem_singleton.1 hmem
  exact absurd hclass hdistinct

/-- Of two services of one class, one loses its record. -/
theorem record_lost : (lampRun "out" "Desk Lamp" "DeskLamp").1.ending = .ok 0 ∧
    Slashless ((lamps "Desk Lamp" "DeskLamp").recordTurns .standard (some "out") true ["a.json", "b.json"]) ∧
    (∀ path ∈ ["a.json", "b.json"], ¬ (lampRun "out" "Desk Lamp" "DeskLamp").2.LiesIn path "out") ∧
    ¬ ∀ path ∈ ["a.json", "b.json"], ∃ s,
      (lampRun "out" "Desk Lamp" "DeskLamp").2.compiled .standard path = .ok s ∧
      (lampRun "out" "Desk Lamp" "DeskLamp").2.read (Path.join "out" (recordName s)) = .ok (s.recordFile true) := by
  have hrun : (lampRun "out" "Desk Lamp" "DeskLamp").1.ending.toOption = some 0 ∧
      Slashless ((lamps "Desk Lamp" "DeskLamp").recordTurns .standard (some "out") true ["a.json", "b.json"]) ∧
      (∀ path ∈ ["a.json", "b.json"], ¬ (lampRun "out" "Desk Lamp" "DeskLamp").2.LiesIn path "out") ∧
      ((lampRun "out" "Desk Lamp" "DeskLamp").2.compiled .standard "a.json").toOption.map Service.serviceType
        = some "Desk Lamp" ∧
      ((lampRun "out" "Desk Lamp" "DeskLamp").2.compiled .standard "b.json").toOption.map Service.serviceType
        = some "DeskLamp" := by
    decide +kernel
  obtain ⟨hending, hslash, houtside, hfirst, hsecond⟩ := hrun
  refine ⟨eq_ok_of_toOption hending, hslash, houtside, fun hall => ?_⟩
  obtain ⟨s₁, hs₁, hread₁⟩ := hall "a.json" (by simp)
  obtain ⟨s₂, hs₂, hread₂⟩ := hall "b.json" (by simp)
  rw [hs₁] at hfirst
  rw [hs₂] at hsecond
  have htype₁ : s₁.serviceType = "Desk Lamp" := Option.some.inj hfirst
  have htype₂ : s₂.serviceType = "DeskLamp" := Option.some.inj hsecond
  have hname : recordName s₁ = recordName s₂ := by
    rw [recordName, recordName, Service.className, Service.className, htype₁, htype₂]
    decide
  rw [hname, hread₂] at hread₁
  have htypes := serviceType_of_recordFile (Except.ok.inj hread₁)
  rw [htype₁, htype₂] at htypes
  exact absurd htypes (by decide)

end ServiceSchema
