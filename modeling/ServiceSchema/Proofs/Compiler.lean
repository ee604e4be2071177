import ServiceSchema.Compiler
import ServiceSchema.Proofs.Document

/-! # What compiling comes to
Of all that can be wrong with a document, what is reported: first its shape, then the first repeated id, then
the first entry with no possible kind. A document with none of these faults compiles. -/
namespace ServiceSchema
open ServiceSchema.Json ServiceSchema.Shape

namespace Logged

variable {ε α β : Type}

theorem result_bind (x : Logged ε α) (f : α → Logged ε β) :
    (x >>= f).result = x.result >>= fun a => (f a).result := by
  obtain ⟨log, result⟩ := x
  cases result <;> rfl

@[simp] theorem result_pure (a : α) : (pure a : Logged ε α).result = .ok a := rfl

@[simp] theorem result_tell (log : List LogEvent) : (tell log : Logged ε Unit).result = .ok () := rfl

@[simp] theorem result_ofExcept (x : Except ε α) : (ofExcept x).result = x := rfl

end Logged

/-! ## First faults -/

/-- A list splits at its head or further on. -/
theorem exists_split_cons {α : Type} {y : α} {l : List α} {P : List α → α → Prop} :
    (∃ before x after, y :: l = before ++ x :: after ∧ P before x) ↔
      P [] y ∨ ∃ before x after, l = before ++ x :: after ∧ P (y :: before) x := by
  constructor
  · rintro ⟨before, x, after, h, hx⟩
    rcases List.cons_eq_append_iff.1 h with ⟨rfl, hhead⟩ | ⟨rest, rfl, hrest⟩
    · cases hhead
      exact .inl hx
    · exact .inr ⟨rest, x, after, hrest, hx⟩
  · rintro (hy | ⟨before, x, after, rfl, hx⟩)
    · exact ⟨[], y, l, rfl, hy⟩
    · exact ⟨y :: before, x, after, rfl, hx⟩

theorem not_exists_split_nil {α : Type} {P : List α → α → Prop} :
    ¬ ∃ before x after, [] = before ++ x :: after ∧ P before x := by
  rintro ⟨before, x, after, h, -⟩
  exact List.cons_ne_nil _ _ (List.append_eq_nil_iff.1 h.symm).2

/-! ## Categories -/

def Category.precedes : Category → Category → Bool
  | .input, .output | .input, .register | .output, .register => true
  | _, _ => false

theorem Category.mem_iff_precedes {before after : List Category} {b c : Category}
    (h : Category.all = before ++ c :: after) : b ∈ before ↔ b.precedes c := by
  match before, h with
  | [], h =>
    cases h
    cases b <;> decide
  | [_], h =>
    cases h
    cases b <;> decide
  | [_, _], h =>
    cases h
    cases b <;> decide
  | _ :: _ :: _ :: before, h =>
    have hlen := congrArg List.length h
    simp [Category.all] at hlen

theorem Category.exists_split (c : Category) : ∃ before after, Category.all = before ++ c :: after :=
  List.append_of_mem (Category.mem_all c)

theorem Category.forall_precedes_input {P : Category → Prop} : ∀ b : Category, b.precedes .input → P b := by
  intro b hb
  cases b <;> cases hb

theorem Category.forall_precedes_output {P : Category → Prop} :
    (∀ b : Category, b.precedes .output → P b) ↔ P .input := by
  refine ⟨fun h => h .input rfl, fun h b hb => ?_⟩
  cases b <;> first | exact h | cases hb

theorem Category.forall_precedes_register {P : Category → Prop} :
    (∀ b : Category, b.precedes .register → P b) ↔ P .input ∧ P .output := by
  refine ⟨fun h => ⟨h .input rfl, h .output rfl⟩, fun h b hb => ?_⟩
  cases b <;> first | exact h.1 | exact h.2 | cases hb

/-! ## Ids -/

/-- The first id of a list that has occurred before it. -/
def FirstRepeat (ids : List UInt16) (id : UInt16) : Prop :=
  ∃ before after, ids = before ++ id :: after ∧ before.Nodup ∧ id ∈ before

theorem firstRepeat_eq_none {seen ids : List UInt16} :
    firstRepeat seen ids = none ↔ ids.Nodup ∧ ∀ id ∈ ids, id ∉ seen := by
  induction ids generalizing seen with
  | nil => simp [firstRepeat]
  | cons id rest ih =>
    simp only [firstRepeat]
    split
    · simp [*]
    · rw [ih, List.nodup_cons, List.forall_mem_cons]
      constructor
      · rintro ⟨hrest, hseen⟩
        exact ⟨⟨fun hid => hseen id hid List.mem_cons_self, hrest⟩, ‹_›,
          fun x hx hxs => hseen x hx (List.mem_cons_of_mem _ hxs)⟩
      · rintro ⟨⟨hid, hrest⟩, -, hseen⟩
        refine ⟨hrest, fun x hx hxs => ?_⟩
        rcases List.mem_cons.1 hxs with rfl | hxs
        · exact hid hx
        · exact hseen x hx hxs

theorem firstRepeat_eq_some {seen ids : List UInt16} {id : UInt16} :
    firstRepeat seen ids = some id ↔ ∃ before x after, ids = before ++ x :: after ∧
      firstRepeat seen before = none ∧ (x ∈ before ∨ x ∈ seen) ∧ x = id := by
  induction ids generalizing seen with
  | nil =>
    simp only [firstRepeat, reduceCtorEq, false_iff]
    exact not_exists_split_nil
  | cons y rest ih =>
    rw [exists_split_cons]
    simp only [firstRepeat]
    split
    · simp_all
    · rename_i hy
      rw [ih]
      simp only [hy, List.not_mem_nil, or_self, false_and, and_false, false_or, List.mem_cons,
        or_left_comm, or_assoc]

theorem firstRepeat_nil_eq_some {ids : List UInt16} {id : UInt16} :
    firstRepeat [] ids = some id ↔ FirstRepeat ids id := by
  simp only [firstRepeat_eq_some, firstRepeat_eq_none, List.not_mem_nil, not_false_eq_true, implies_true,
    and_true, or_false, FirstRepeat]
  refine exists_congr fun before => ?_
  constructor
  · rintro ⟨x, after, h, hnodup, hmem, rfl⟩
    exact ⟨after, h, hnodup, hmem⟩
  · rintro ⟨after, h, hnodup, hmem⟩
    exact ⟨id, after, h, hnodup, hmem, rfl⟩

theorem checkUnique_eq_ok {c : Category} {ids : List UInt16} : checkUnique c ids = .ok () ↔ ids.Nodup := by
  have hnone : firstRepeat [] ids = none ↔ ids.Nodup := by simp [firstRepeat_eq_none]
  rw [← hnone, checkUnique]
  cases firstRepeat [] ids <;> simp

theorem checkUnique_eq_error {c : Category} {ids : List UInt16} {e : CompileError} :
    checkUnique c ids = .error e ↔ ∃ id, FirstRepeat ids id ∧ e = .duplicateId c id := by
  simp only [← firstRepeat_nil_eq_some, checkUnique]
  cases firstRepeat [] ids <;> simp [eq_comm]

namespace Document

def ids (d : Document) (c : Category) : List UInt16 := (d.entries c).map Entry.id

def FirstDuplicate (d : Document) (c : Category) (id : UInt16) : Prop :=
  FirstRepeat (d.ids c) id ∧ ∀ b : Category, b.precedes c → (d.ids b).Nodup

theorem checkIds_eq_ok {d : Document} {cs : List Category} :
    d.checkIds cs = .ok () ↔ ∀ c ∈ cs, (d.ids c).Nodup := by
  induction cs with
  | nil => simp [checkIds]
  | cons c rest ih =>
    rw [checkIds, bind_eq_ok, List.forall_mem_cons, ← ih, ← checkUnique_eq_ok (c := c)]
    exact ⟨fun ⟨_, hc, hrest⟩ => ⟨hc, hrest⟩, fun ⟨hc, hrest⟩ => ⟨(), hc, hrest⟩⟩

theorem checkIds_eq_error {d : Document} {cs : List Category} {e : CompileError} :
    d.checkIds cs = .error e ↔ ∃ before c after, cs = before ++ c :: after ∧
      (∀ b ∈ before, (d.ids b).Nodup) ∧ ∃ id, FirstRepeat (d.ids c) id ∧ e = .duplicateId c id := by
  induction cs with
  | nil =>
    simp only [checkIds, reduceCtorEq, false_iff]
    exact not_exists_split_nil
  | cons c rest ih =>
    rw [exists_split_cons, checkIds, bind_eq_error, ih, checkUnique_eq_error]
    refine or_congr (by simp [ids]) ?_
    simp only [List.forall_mem_cons]
    constructor
    · rintro ⟨⟨⟩, hc, before, b, after, rfl, hbefore, hb⟩
      exact ⟨before, b, after, rfl, ⟨checkUnique_eq_ok.1 hc, hbefore⟩, hb⟩
    · rintro ⟨before, b, after, rfl, ⟨hc, hbefore⟩, hb⟩
      exact ⟨(), checkUnique_eq_ok.2 hc, before, b, after, rfl, hbefore, hb⟩

theorem checkIds_all_eq_error {d : Document} {e : CompileError} :
    d.checkIds Category.all = .error e ↔ ∃ c id, d.FirstDuplicate c id ∧ e = .duplicateId c id := by
  rw [checkIds_eq_error]
  constructor
  · rintro ⟨before, c, after, hall, hbefore, id, hrepeat, rfl⟩
    exact ⟨c, id, ⟨hrepeat, fun b hb => hbefore b ((Category.mem_iff_precedes hall).2 hb)⟩, rfl⟩
  · rintro ⟨c, id, ⟨hrepeat, hearlier⟩, rfl⟩
    obtain ⟨before, after, hall⟩ := c.exists_split
    exact ⟨before, c, after, hall, fun b hb => hearlier b ((Category.mem_iff_precedes hall).1 hb), id, hrepeat, rfl⟩

end Document

/-! ## Headers -/

namespace Includes

theorem mem_addKind {i : Includes} {k : FieldKind} {header : String} :
    header ∈ i.addKind k ↔ (∃ codec, k = .compiled codec ∧ codec.header = header) ∨ header ∈ i := by
  cases k <;> simp [addKind, FieldKind.codec?, eq_comm]

def addFields (i : Includes) (fields : List Field) : Includes := (fields.map Field.kind).foldl addKind i

theorem mem_addFields {i : Includes} {fields : List Field} {header : String} : header ∈ i.addFields fields ↔
    (∃ f ∈ fields, ∃ codec, f.kind = .compiled codec ∧ codec.header = header) ∨ header ∈ i := by
  induction fields generalizing i with
  | nil => simp [addFields]
  | cons f fields ih =>
    have hcons : i.addFields (f :: fields) = (i.addKind f.kind).addFields fields := rfl
    simp [hcons, ih, mem_addKind, or_assoc, or_left_comm]

theorem mem_addFields_empty {fields : List Field} {header : String} : header ∈ empty.addFields fields ↔
    ∃ f ∈ fields, ∃ codec, f.kind = .compiled codec ∧ codec.header = header := by
  rw [mem_addFields, or_iff_left (not_mem_empty header)]

theorem addFields_append (i : Includes) (fields others : List Field) :
    i.addFields (fields ++ others) = (i.addFields fields).addFields others := by
  rw [addFields, List.map_append, List.foldl_append]
  rfl

/-- It is the same to put headers in one by one, or to gather them before. -/
theorem merge_addFields (i : Includes) (fields : List Field) :
    i.merge (empty.addFields fields) = i.addFields fields := by
  refine eq_of_mem_iff fun header => ?_
  rw [mem_merge, mem_addFields, mem_addFields, or_iff_left (not_mem_empty header), or_comm]

end Includes

/-! ## Entries -/

def Entry.selection (p : Profile) (c : Category) (e : Entry) : Except FieldKind.Fault FieldKind :=
  FieldKind.select p c e (Identifier.callback c (Identifier.derive e.name))

def Entry.Legal (p : Profile) (c : Category) (e : Entry) : Prop := ∃ k, e.selection p c = .ok k

def Field.Compiles (p : Profile) (c : Category) (e : Entry) (f : Field) : Prop :=
  ∃ k, e.selection p c = .ok k ∧ f = .ofEntry c e k

/-- The field that an entry becomes, or what is reported of it. -/
def Entry.field (p : Profile) (c : Category) (i : Nat) (e : Entry) : Except CompileError Field :=
  ((e.selection p c).map (Field.ofEntry c e)).mapError (.ofEntry c i e)

/-- The fields of the entries from position `i` on, their headers apart. -/
def fieldsFrom (p : Profile) (c : Category) : Nat → List Entry → Except CompileError (List Field)
  | _, [] => .ok []
  | i, e :: es => do
    let field ← e.field p c i
    let fields ← fieldsFrom p c (i + 1) es
    return field :: fields

variable {p : Profile} {c : Category} {i : Nat} {es : List Entry} {fs : List Field}

theorem fieldsFrom_eq_ok : fieldsFrom p c i es = .ok fs ↔ List.Forall₂ (Field.Compiles p c) es fs := by
  induction es generalizing i fs with
  | nil => simp [fieldsFrom, eq_comm]
  | cons e es ih =>
    simp only [fieldsFrom, bind_eq_ok, ih, Entry.field, mapError_eq_ok, map_eq_ok]
    constructor
    · rintro ⟨f, ⟨k, hk, rfl⟩, fs, hfs, h⟩
      cases h
      exact .cons ⟨k, hk, rfl⟩ hfs
    · rintro (_ | ⟨⟨k, hk, rfl⟩, hfs⟩)
      exact ⟨_, ⟨k, hk, rfl⟩, _, hfs, rfl⟩

theorem fieldsFrom_eq_error {err : CompileError} : fieldsFrom p c i es = .error err ↔
    ∃ before e after, es = before ++ e :: after ∧ (∀ b ∈ before, b.Legal p c) ∧
      ∃ fault, e.selection p c = .error fault ∧ err = .ofEntry c (i + before.length) e fault := by
  induction es generalizing i with
  | nil =>
    simp only [fieldsFrom, reduceCtorEq, false_iff]
    exact not_exists_split_nil
  | cons e es ih =>
    rw [exists_split_cons]
    simp only [fieldsFrom, bind_eq_error, ih, Entry.field, List.forall_mem_cons, List.length_cons, List.length_nil,
      Nat.add_zero]
    cases he : e.selection p c with
    | error fault =>
      have hillegal : ¬ e.Legal p c := fun ⟨k, hk⟩ => nomatch he.symm.trans hk
      simp [hillegal, eq_comm]
    | ok k =>
      have hlegal : e.Legal p c := ⟨k, he⟩
      simp [hlegal, Nat.add_right_comm i 1, Nat.add_assoc, pure, Except.pure]

theorem exists_fields : (∃ fs, fieldsFrom p c i es = .ok fs) ↔ ∀ e ∈ es, e.Legal p c := by
  simp only [fieldsFrom_eq_ok]
  induction es with
  | nil => exact ⟨nofun, fun _ => ⟨[], .nil⟩⟩
  | cons e es ih =>
    rw [List.forall_mem_cons, ← ih]
    constructor
    · rintro ⟨_, _ | ⟨⟨k, hk, -⟩, hfs⟩⟩
      exact ⟨⟨k, hk⟩, _, hfs⟩
    · rintro ⟨⟨k, hk⟩, fs, hfs⟩
      exact ⟨_, .cons ⟨k, hk, rfl⟩ hfs⟩

/-! ## Headers on the way -/

theorem result_assembleField (p : Profile) (c : Category) (i : Nat) (e : Entry) (headers : Includes) :
    (assembleField p c i e headers).result = (e.field p c i).map fun f => (f, headers.addKind f.kind) := by
  rw [assembleField, Entry.selectInto, Entry.field, Entry.selection]
  cases FieldKind.select p c e (Identifier.callback c (Identifier.derive e.name)) <;> rfl

/-- The fields do not depend on the headers before them, and add those that they need. -/
theorem result_assembleFields (p : Profile) (c : Category) (i : Nat) (es : List Entry) (headers : Includes) :
    (assembleFields p c i es headers).result = (fieldsFrom p c i es).map fun fs => (fs, headers.addFields fs) := by
  induction es generalizing i headers with
  | nil => rfl
  | cons e es ih =>
    simp only [assembleFields, fieldsFrom, Logged.result_bind, Logged.result_pure, result_assembleField, ih]
    cases e.field p c i with
    | error err => rfl
    | ok f =>
      simp only [map_ok, bind, Except.bind]
      cases fieldsFrom p c (i + 1) es <;> rfl

theorem result_assembleCategory (p : Profile) (c : Category) (es : List Entry) :
    (assembleCategory p c es).result = (fieldsFrom p c 0 es).map fun fs => (fs, .addFields .empty fs) :=
  result_assembleFields p c 0 es .empty

/-- The sets of headers that the categories need make up one. -/
theorem result_assembleService (p : Profile) (value : Value) (d : Document) : (assembleService p value d).result = do
    let inputs ← fieldsFrom p .input 0 d.inputs
    let outputs ← fieldsFrom p .output 0 d.outputs
    let registers ← fieldsFrom p .register 0 d.registers
    return {
      serviceType := d.serviceType
      version := d.version
      inputs, outputs, registers
      includes := .addFields .empty (inputs ++ outputs ++ registers)
      json := value.pretty
      cbor := Cbor.encode value } := by
  simp only [assembleService, Logged.result_bind, result_assembleCategory, Logged.result_tell, Logged.result_pure]
  cases fieldsFrom p .input 0 d.inputs with
  | error => rfl
  | ok inputs =>
    cases fieldsFrom p .output 0 d.outputs with
    | error => rfl
    | ok outputs =>
      cases fieldsFrom p .register 0 d.registers with
      | error => rfl
      | ok registers =>
        simp only [map_ok, bind, Except.bind, pure, Except.pure, Includes.merge_addFields, Includes.addFields_append]

/-! ## Services -/

/-- The entry that is reported as having no kind. -/
structure Document.FirstIllegal (p : Profile) (d : Document) (c : Category) (i : Nat) (e : Entry)
    (fault : FieldKind.Fault) : Prop where
  entry : ∃ before after, d.entries c = before ++ e :: after ∧ before.length = i ∧ ∀ b ∈ before, b.Legal p c
  selection : e.selection p c = .error fault
  earlier : ∀ b : Category, b.precedes c → ∀ f ∈ d.entries b, f.Legal p b

theorem fieldsFrom_eq_firstIllegal {d : Document} {err : CompileError}
    (hearlier : ∀ b : Category, b.precedes c → ∀ f ∈ d.entries b, f.Legal p b) :
    fieldsFrom p c 0 (d.entries c) = .error err ↔
      ∃ i e fault, d.FirstIllegal p c i e fault ∧ err = .ofEntry c i e fault := by
  rw [fieldsFrom_eq_error]
  constructor
  · rintro ⟨before, e, after, hsplit, hlegal, fault, hfault, rfl⟩
    exact ⟨before.length, e, fault, ⟨⟨before, after, hsplit, rfl, hlegal⟩, hfault, hearlier⟩, by rw [Nat.zero_add]⟩
  · rintro ⟨_, e, fault, ⟨⟨before, after, hsplit, rfl, hlegal⟩, hfault, -⟩, rfl⟩
    exact ⟨before, e, after, hsplit, hlegal, fault, hfault, by rw [Nat.zero_add]⟩

/-- The categories are assembled one after the other; the first that fails decides. -/
theorem assembleService_eq_error {value : Value} {d : Document} {err : CompileError} :
    (assembleService p value d).result = .error err ↔
      ∃ c i e fault, d.FirstIllegal p c i e fault ∧ err = .ofEntry c i e fault := by
  have hlegal (b : Category) : (∃ fs, fieldsFrom p b 0 (d.entries b) = .ok fs) ↔
      ∀ f ∈ d.entries b, f.Legal p b := exists_fields
  have hresult : (assembleService p value d).result = .error err ↔ ∃ c : Category,
      (∀ b : Category, b.precedes c → ∀ f ∈ d.entries b, f.Legal p b) ∧
        fieldsFrom p c 0 (d.entries c) = .error err := by
    simp only [result_assembleService, bind_eq_error, ← hlegal]
    constructor
    · rintro (h | ⟨inputs, hin, h | ⟨outputs, hout, h | ⟨registers, hreg, h⟩⟩⟩)
      · exact ⟨.input, Category.forall_precedes_input, h⟩
      · exact ⟨.output, Category.forall_precedes_output.2 ⟨inputs, hin⟩, h⟩
      · exact ⟨.register, Category.forall_precedes_register.2 ⟨⟨inputs, hin⟩, outputs, hout⟩, h⟩
      · cases h
    · rintro ⟨c, hearlier, h⟩
      cases c with
      | input => exact .inl h
      | output =>
        obtain ⟨inputs, hin⟩ := Category.forall_precedes_output.1 hearlier
        exact .inr ⟨inputs, hin, .inl h⟩
      | register =>
        obtain ⟨⟨inputs, hin⟩, outputs, hout⟩ := Category.forall_precedes_register.1 hearlier
        exact .inr ⟨inputs, hin, .inr ⟨outputs, hout, .inl h⟩⟩
  rw [hresult]
  refine exists_congr fun c => ⟨fun ⟨hearlier, h⟩ => (fieldsFrom_eq_firstIllegal hearlier).1 h, ?_⟩
  rintro ⟨i, e, fault, hfirst, rfl⟩
  exact ⟨hfirst.earlier, (fieldsFrom_eq_firstIllegal hfirst.earlier).2 ⟨i, e, fault, hfirst, rfl⟩⟩

/-- A service is what the fields of all categories, with their headers, and the document make up. -/
theorem assembleService_eq_ok {value : Value} {d : Document} {s : Service} :
    (assembleService p value d).result = .ok s ↔
      (∀ c, List.Forall₂ (Field.Compiles p c) (d.entries c) (s.fields c)) ∧
        s.serviceType = d.serviceType ∧ s.version = d.version ∧
        s.includes = .addFields .empty (s.inputs ++ s.outputs ++ s.registers) ∧
        s.json = value.pretty ∧ s.cbor = Cbor.encode value := by
  simp only [result_assembleService, bind_eq_ok, fieldsFrom_eq_ok]
  constructor
  · rintro ⟨inputs, hin, outputs, hout, registers, hreg, h⟩
    cases h
    refine ⟨fun c => ?_, rfl, rfl, rfl, rfl, rfl⟩
    cases c with
    | input => exact hin
    | output => exact hout
    | register => exact hreg
  · rintro ⟨hfields, htype, hversion, hincludes, hjson, hcbor⟩
    refine ⟨s.inputs, hfields .input, s.outputs, hfields .output, s.registers, hfields .register, ?_⟩
    rw [← htype, ← hversion, ← hincludes, ← hjson, ← hcbor]
    rfl

theorem exists_service {value : Value} {d : Document} :
    (∃ s, (assembleService p value d).result = .ok s) ↔ ∀ c, ∀ e ∈ d.entries c, e.Legal p c := by
  simp only [← exists_fields (i := 0), fieldsFrom_eq_ok, assembleService_eq_ok]
  constructor
  · rintro ⟨s, hfields, -⟩ c
    exact ⟨s.fields c, hfields c⟩
  · intro h
    obtain ⟨inputs, hin⟩ := h .input
    obtain ⟨outputs, hout⟩ := h .output
    obtain ⟨registers, hreg⟩ := h .register
    let includes := Includes.addFields .empty (inputs ++ outputs ++ registers)
    refine ⟨⟨_, _, inputs, outputs, registers, includes, _, _⟩, fun c => ?_, rfl, rfl, rfl, rfl, rfl⟩
    cases c with
    | input => exact hin
    | output => exact hout
    | register => exact hreg

/-! ## Documents -/

theorem result_compile (p : Profile) (value : Value) :
    (compile p value).result = checkDocument value >>= fun d => (assembleService p value d).result := by
  rw [compile, Logged.result_bind, Logged.result_ofExcept]

theorem compile_of_not_shaped {value : Value} (h : ¬ ServiceShaped value) (p : Profile) :
    ∃ v, (compile p value).result = .error (.shape v) := by
  rw [← firstViolation_eq_none, ← ne_eq, Option.ne_none_iff_exists'] at h
  obtain ⟨v, hv⟩ := h
  refine ⟨v, ?_⟩
  rw [result_compile, checkDocument, hv]
  rfl

/-- A document of the service shape is judged by its typed view alone. -/
theorem compile_of_shaped {value : Value} (h : ServiceShaped value) (p : Profile) :
    ∃ ms d, value = .object ms ∧ Document.ofValue value = .ok d ∧ Document.ReadFrom ms d ∧
      (compile p value).result
        = d.checkIds Category.all >>= fun _ => (assembleService p value d).result := by
  obtain ⟨ms, d, hvalue, hd, hfrom⟩ := Document.ofValue_of_shaped h
  refine ⟨ms, d, hvalue, hd, hfrom, ?_⟩
  rw [result_compile, checkDocument, firstViolation_eq_none.2 h]
  cases hids : d.checkIds Category.all <;> simp [hd, hids, bind, Except.bind, pure, Except.pure]

/-- A document is judged by what was read from it. -/
theorem compile_of_readFrom {ms : Members} {d : Document} (h : Document.ReadFrom ms d) (p : Profile) :
    (compile p (.object ms)).result
      = d.checkIds Category.all >>= fun _ => (assembleService p (.object ms) d).result := by
  obtain ⟨_, d', heq, -, hfrom, hresult⟩ := compile_of_shaped h.shaped p
  cases heq
  rw [hresult, hfrom.unique h]

theorem checkIds_all_eq_ok {d : Document} {u : Unit} :
    d.checkIds Category.all = .ok u ↔ ∀ c, (d.ids c).Nodup := by
  rw [Document.checkIds_eq_ok]
  exact ⟨fun h c => h c c.mem_all, fun h c _ => h c⟩

theorem compile_eq_ok_of_readFrom {ms : Members} {d : Document} (h : Document.ReadFrom ms d) {p : Profile}
    {s : Service} : (compile p (.object ms)).result = .ok s ↔
      (∀ c, (d.ids c).Nodup) ∧ (assembleService p (.object ms) d).result = .ok s := by
  simp only [compile_of_readFrom h, bind_eq_ok, checkIds_all_eq_ok, exists_const]

theorem exists_compile_of_readFrom {ms : Members} {d : Document} (h : Document.ReadFrom ms d) {p : Profile} :
    (∃ s, (compile p (.object ms)).result = .ok s) ↔
      (∀ c, (d.ids c).Nodup) ∧ ∀ c, ∀ e ∈ d.entries c, e.Legal p c := by
  simp only [compile_eq_ok_of_readFrom h, exists_and_left, exists_service]

/-- Only a document of the service shape that repeats no id within a category can compile. -/
theorem compile_eq_ok {p : Profile} {value : Value} {s : Service} (h : (compile p value).result = .ok s) :
    ∃ ms d, value = .object ms ∧ Document.ReadFrom ms d ∧ (∀ c, (d.ids c).Nodup) ∧
      (assembleService p value d).result = .ok s := by
  by_cases hshape : ServiceShaped value
  · obtain ⟨ms, d, hvalue, -, hfrom, hresult⟩ := compile_of_shaped hshape p
    rw [hresult, bind_eq_ok] at h
    obtain ⟨u, hids, hs⟩ := h
    exact ⟨ms, d, hvalue, hfrom, checkIds_all_eq_ok.1 hids, hs⟩
  · obtain ⟨v, hv⟩ := compile_of_not_shaped hshape p
    rw [hv] at h
    cases h

theorem kind_ofEntry (c : Category) (i : Nat) (e : Entry) (fault : FieldKind.Fault) :
    (CompileError.ofEntry c i e fault).kind ≠ "MalformedSchemaError" := by
  cases fault <;> simp [CompileError.ofEntry, CompileError.kind]

/-- What compiling a document comes to. Its shape is looked at first, then the ids of all categories, then
its entries; the first fault in this order is the one that is reported, and without a fault it compiles. -/
theorem compile_precedence (p : Profile) (value : Value) :
    ((∃ e, (compile p value).result = .error e ∧ e.kind = "MalformedSchemaError") ↔ ¬ ServiceShaped value) ∧
    (ServiceShaped value → ∃ ms d, value = .object ms ∧ Document.ReadFrom ms d ∧
      (∀ err, (compile p value).result = .error err ↔
        (∃ c id, d.FirstDuplicate c id ∧ err = .duplicateId c id) ∨
        ((∀ c, (d.ids c).Nodup) ∧ ∃ c i e fault, d.FirstIllegal p c i e fault ∧ err = match fault with
          | .type reason => .illegalType ⟨c, i, e.name⟩ e.declaredType reason
          | .encoding reason => .illegalEncoding ⟨c, i, e.name⟩ e.encoding reason)) ∧
      ((∃ s, (compile p value).result = .ok s) ↔
        (∀ c, (d.ids c).Nodup) ∧ ∀ c, ∀ e ∈ d.entries c, e.Legal p c)) := by
  by_cases hshape : ServiceShaped value
  · obtain ⟨ms, d, hvalue, -, hfrom, hresult⟩ := compile_of_shaped hshape p
    have herror (err : CompileError) : (compile p value).result = .error err ↔
        (∃ c id, d.FirstDuplicate c id ∧ err = .duplicateId c id) ∨
        ((∀ c, (d.ids c).Nodup) ∧ ∃ c i e fault, d.FirstIllegal p c i e fault ∧ err = .ofEntry c i e fault) := by
      rw [hresult, bind_eq_error, Document.checkIds_all_eq_error, assembleService_eq_error]
      simp only [checkIds_all_eq_ok, exists_const]
    have hok : (∃ s, (compile p value).result = .ok s) ↔
        (∀ c, (d.ids c).Nodup) ∧ ∀ c, ∀ e ∈ d.entries c, e.Legal p c := by
      simp only [hresult, bind_eq_ok, checkIds_all_eq_ok, exists_const, exists_and_left, exists_service]
    refine ⟨iff_of_false ?_ (not_not_intro hshape), fun _ => ⟨ms, d, hvalue, hfrom, fun err => ?_, hok⟩⟩
    · rintro ⟨e, he, hkind⟩
      rcases (herror e).1 he with ⟨c, id, -, rfl⟩ | ⟨-, c, i, e, fault, -, rfl⟩
      · simp [CompileError.kind] at hkind
      · exact kind_ofEntry c i e fault hkind
    · rw [herror]
      refine or_congr_right (and_congr_right fun _ => ?_)
      refine exists_congr fun c => exists_congr fun i => exists_congr fun e => exists_congr fun fault => ?_
      cases fault <;> rfl
  · obtain ⟨v, hv⟩ := compile_of_not_shaped hshape p
    exact ⟨iff_of_true ⟨_, hv, rfl⟩ hshape, fun h => absurd h hshape⟩

end ServiceSchema
