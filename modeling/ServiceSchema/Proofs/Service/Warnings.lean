import ServiceSchema.Proofs.Service

/-! # Defaults that are not carried
Inputs and outputs carry no defaults, but none is dropped silently: a default that an entry declares there is warned
of when the entry is compiled. So the warnings tell how far the compilation has come. -/
namespace ServiceSchema
open ServiceSchema.Json ServiceSchema.Shape

variable {p : Profile} {c : Category} {e : Entry} {d : Document} {value : Value}

/-! ## Logs in sequence -/

namespace Logged

variable {ε α β : Type}

theorem log_bind (x : Logged ε α) (f : α → Logged ε β) :
    (x >>= f).log = x.log ++ match x.result with
      | .ok a => (f a).log
      | .error _ => [] := by
  obtain ⟨log, result⟩ := x
  cases result with
  | ok a => rfl
  | error err => exact (List.append_nil log).symm

theorem log_bind_of_error {x : Logged ε α} {err : ε} (h : x.result = .error err) (f : α → Logged ε β) :
    (x >>= f).log = x.log := by
  rw [log_bind, h]
  exact List.append_nil x.log

theorem log_bind_of_ok {x : Logged ε α} {a : α} (h : x.result = .ok a) (f : α → Logged ε β) :
    (x >>= f).log = x.log ++ (f a).log := by
  rw [log_bind, h]

end Logged

def LogEvent.isIgnoredDefault : LogEvent → Bool
  | .ignoredDefault _ => true
  | _ => false

def Logged.warnings {ε α : Type} (x : Logged ε α) : List LogEvent := x.log.filter (·.isIgnoredDefault)

/-! ## Entries at their places -/

/-- An entry with its category, and how many entries of the category stand before it. -/
structure PlacedEntry where
  category : Category
  index : Nat
  entry : Entry

namespace PlacedEntry

def Legal (p : Profile) (e : PlacedEntry) : Prop := e.entry.Legal p e.category

/-- Does it declare a default, be it null, that its category has no use for? -/
def DropsDefault (e : PlacedEntry) : Prop := e.category ≠ .register ∧ e.entry.default.isSome

def path (e : PlacedEntry) : EntryPath := ⟨e.category, e.index, e.entry.name⟩

instance (e : PlacedEntry) : Decidable e.DropsDefault := inferInstanceAs (Decidable (_ ∧ _))

instance (p : Profile) (e : PlacedEntry) : Decidable (e.Legal p) :=
  match h : e.entry.selection p e.category with
  | .ok k => .isTrue ⟨k, h⟩
  | .error _ => .isFalse fun ⟨_, hk⟩ => nomatch h.symm.trans hk

end PlacedEntry

/-- The entries of a category that have places from `i` on. -/
def placed (c : Category) (i : Nat) (es : List Entry) : List PlacedEntry :=
  (es.zipIdx i).map fun (e, i) => ⟨c, i, e⟩

def Document.placed (d : Document) : List PlacedEntry :=
  Category.all.flatMap fun c => ServiceSchema.placed c 0 (d.entries c)

/-- What is told of the entries whose defaults are dropped, up to the first entry that is refused. -/
def ignoredDefaults (p : Profile) (es : List PlacedEntry) : List LogEvent :=
  ((es.takeWhile (·.Legal p)).filter (·.DropsDefault)).map fun e => .ignoredDefault e.path

theorem ignoredDefaults_cons_of_legal {e : PlacedEntry} (h : e.Legal p) (es : List PlacedEntry) :
    ignoredDefaults p (e :: es)
      = (if e.DropsDefault then [.ignoredDefault e.path] else []) ++ ignoredDefaults p es := by
  simp only [ignoredDefaults, List.takeWhile_cons, h, decide_true, if_true, List.filter_cons, decide_eq_true_eq]
  split <;> rfl

theorem ignoredDefaults_cons_of_not_legal {e : PlacedEntry} (h : ¬ e.Legal p) (es : List PlacedEntry) :
    ignoredDefaults p (e :: es) = [] := by
  simp [ignoredDefaults, h]

/-- Further entries count if nothing before them is refused. -/
theorem ignoredDefaults_append (p : Profile) (es fs : List PlacedEntry) : ignoredDefaults p (es ++ fs) =
    ignoredDefaults p es ++ if ∀ e ∈ es, e.Legal p then ignoredDefaults p fs else [] := by
  induction es with
  | nil => simp [ignoredDefaults]
  | cons e es ih =>
    by_cases h : e.Legal p
    · simp [ignoredDefaults_cons_of_legal h, ih, h]
    · simp [ignoredDefaults_cons_of_not_legal h, h]

/-! ## Compiling -/

theorem legal_placed {es : List Entry} {i : Nat} :
    (∀ e ∈ placed c i es, e.Legal p) ↔ ∀ e ∈ es, e.Legal p c := by
  induction es generalizing i with
  | nil => simp [placed]
  | cons e es ih =>
    rw [List.forall_mem_cons, ← ih (i := i + 1), placed, List.zipIdx_cons, List.map_cons, List.forall_mem_cons]
    rfl

theorem log_assembleField_of_legal (h : e.Legal p c) (i : Nat) (headers : Includes) :
    (assembleField p c i e headers).log = e.warnings c i := by
  obtain ⟨k, hk⟩ := h
  rw [assembleField, Entry.selectInto, ← Entry.selection, hk]

theorem log_assembleField_of_not_legal (h : ¬ e.Legal p c) (i : Nat) (headers : Includes) :
    (assembleField p c i e headers).log = [] := by
  rw [assembleField, Entry.selectInto, ← Entry.selection]
  cases hk : e.selection p c with
  | error fault => rfl
  | ok k => exact absurd ⟨k, hk⟩ h

theorem log_assembleFields (p : Profile) (c : Category) (i : Nat) (es : List Entry) (headers : Includes) :
    (assembleFields p c i es headers).log = ignoredDefaults p (placed c i es) := by
  induction es generalizing i headers with
  | nil => rfl
  | cons e es ih =>
    have hplaced : placed c i (e :: es) = ⟨c, i, e⟩ :: placed c (i + 1) es := rfl
    rw [hplaced, assembleFields]
    by_cases h : e.Legal p c
    · obtain ⟨k, hk⟩ := id h
      have hfield : (assembleField p c i e headers).result = .ok (.ofEntry c e k, headers.addKind k) := by
        rw [result_assembleField, Entry.field, hk]
        rfl
      have hrest : (assembleFields p c (i + 1) es (headers.addKind k) >>= fun r =>
          pure (Field.ofEntry c e k :: r.1, r.2)).log = (assembleFields p c (i + 1) es (headers.addKind k)).log := by
        cases hes : (assembleFields p c (i + 1) es (headers.addKind k)).result with
        | error err => exact Logged.log_bind_of_error hes _
        | ok r => exact (Logged.log_bind_of_ok hes _).trans (List.append_nil _)
      rw [Logged.log_bind_of_ok hfield, hrest, ih, log_assembleField_of_legal h,
        ignoredDefaults_cons_of_legal (e := ⟨c, i, e⟩) h]
      rfl
    · cases hk : e.selection p c with
      | ok k => exact absurd ⟨k, hk⟩ h
      | error fault =>
        have hfield : (assembleField p c i e headers).result = .error (.ofEntry c i e fault) := by
          rw [result_assembleField, Entry.field, hk]
          rfl
        rw [Logged.log_bind_of_error hfield, log_assembleField_of_not_legal h,
          ignoredDefaults_cons_of_not_legal (e := ⟨c, i, e⟩) h]

theorem LogEvent.filter_ignoredDefaults (p : Profile) (es : List PlacedEntry) :
    (ignoredDefaults p es).filter (·.isIgnoredDefault) = ignoredDefaults p es := by
  simp [ignoredDefaults, List.filter_map, Function.comp_def, LogEvent.isIgnoredDefault]

/-- What is told after the fields of a category counts if none of its entries is refused. -/
theorem warnings_assembleCategory_bind {α : Type} {es : List Entry} {f : List Field × Includes → Logged CompileError α}
    {told : List LogEvent} (hf : ∀ r, (f r).warnings = told) : (assembleCategory p c es >>= f).warnings =
      ignoredDefaults p (placed c 0 es) ++ if ∀ e ∈ placed c 0 es, e.Legal p then told else [] := by
  rw [Logged.warnings, Logged.log_bind, assembleCategory, log_assembleFields, List.filter_append,
    LogEvent.filter_ignoredDefaults]
  congr 1
  rw [result_assembleFields]
  cases hes : fieldsFrom p c 0 es with
  | ok fs => rw [if_pos (legal_placed.2 (exists_fields.1 ⟨fs, hes⟩)), ← hf, Logged.warnings, map_ok]
  | error err =>
    rw [if_neg, map_error, List.filter_nil]
    intro hlegal
    obtain ⟨fs, hfs⟩ := exists_fields.2 (legal_placed.1 hlegal)
    cases hfs.symm.trans hes

theorem warnings_assembleService (p : Profile) (value : Value) (d : Document) :
    (assembleService p value d).warnings = ignoredDefaults p d.placed := by
  have hplaced : d.placed = placed .input 0 d.inputs ++ (placed .output 0 d.outputs ++
      (placed .register 0 d.registers ++ [])) := rfl
  rw [hplaced]
  simp only [ignoredDefaults_append]
  refine warnings_assembleCategory_bind fun inputs => warnings_assembleCategory_bind fun outputs =>
    warnings_assembleCategory_bind fun registers => rfl

theorem warnings_compile (p : Profile) (value : Value) : (compile p value).warnings =
    match checkDocument value with
    | .ok d => ignoredDefaults p d.placed
    | .error _ => [] := by
  rw [compile, Logged.warnings, Logged.log_bind]
  cases checkDocument value with
  | ok d => exact warnings_assembleService p value d
  | error err => rfl

theorem checkDocument_of_readFrom {ms : Members} (h : Document.ReadFrom ms d) :
    checkDocument (.object ms) = (d.checkIds Category.all).map fun _ => d := by
  obtain ⟨_, d', heq, hd', hfrom⟩ := Document.ofValue_of_shaped h.shaped
  cases heq
  obtain rfl := hfrom.unique h
  rw [checkDocument, firstViolation_eq_none.2 h.shaped]
  cases hids : d'.checkIds Category.all <;> simp [hd', hids, bind, Except.bind, pure, Except.pure]

theorem warnings_of_not_shaped (h : ¬ ServiceShaped value) (p : Profile) : (compile p value).warnings = [] := by
  rw [← firstViolation_eq_none, ← ne_eq, Option.ne_none_iff_exists'] at h
  obtain ⟨v, hv⟩ := h
  have hcheck : checkDocument value = .error (.shape v) := by
    rw [checkDocument, hv]
    rfl
  rw [warnings_compile, hcheck]

/-- The defaults that a compilation warns of: none if the document has not the shape of a service, or repeats an id
within a category; or else those of inputs and outputs, in their order, before the first entry that is refused. -/
theorem default_warnings (p : Profile) (value : Value) :
    (¬ ServiceShaped value → (compile p value).warnings = []) ∧
    ∀ ms d, value = .object ms → Document.ReadFrom ms d →
      ((∃ c, ¬ (d.ids c).Nodup) → (compile p value).warnings = []) ∧
      ((∀ c, (d.ids c).Nodup) → (compile p value).warnings =
        ((d.placed.takeWhile (·.Legal p)).filter (·.DropsDefault)).map fun e => .ignoredDefault e.path) := by
  refine ⟨fun h => warnings_of_not_shaped h p, ?_⟩
  rintro ms d rfl hfrom
  rw [warnings_compile, checkDocument_of_readFrom hfrom]
  constructor
  · rintro ⟨c, hc⟩
    cases hids : d.checkIds Category.all with
    | ok u => exact absurd (checkIds_all_eq_ok.1 hids c) hc
    | error err => rfl
  · intro hids
    rw [checkIds_all_eq_ok (u := ()).2 hids]
    rfl

/-- An input and an output with defaults around one that is refused; the register is never reached. -/
example : ((compile .standard (.object [
    ("inputs", .array [.object [("default", .null), ("id", .number (.ofWord 0)), ("name", .string "a"),
      ("type", .string "char")]]),
    ("outputs", .array [
      .object [("id", .number (.ofWord 0)), ("name", .string "b"), ("type", .string "char")],
      .object [("default", .bool true), ("id", .number (.ofWord 1)), ("name", .string "c"), ("type", .string "char")],
      .object [("default", .null), ("id", .number (.ofWord 2)), ("name", .string "d"), ("type", .string "chars")],
      .object [("default", .null), ("id", .number (.ofWord 3)), ("name", .string "e"), ("type", .string "char")]]),
    ("type", .string "Echo"), ("version", .number (.ofWord 1))])).warnings)
      = [.ignoredDefault ⟨.input, 0, "a"⟩, .ignoredDefault ⟨.output, 1, "c"⟩] := by
  decide +kernel

end ServiceSchema
