import Mathlib.Data.List.Nodup
import ServiceSchema.Proofs.Service

/-! # Documents in another spelling
A document can say one thing in several ways: an integer as a double, null for what is left out, keys that no rule
names, and defaults that nothing carries. None of this matters to compiling, the copies of the document apart. -/
namespace ServiceSchema
open ServiceSchema.Json ServiceSchema.Shape

/-! ## Spellings -/

/-- One value, or two numbers that denote one natural number up to a bound: the integer `3` and the double `3.0`. -/
def SameNumber (bound : Nat) (a b : Option Value) : Prop :=
  a = b ∨ ∃ n m k, a = some (.number n) ∧ b = some (.number m) ∧ k ≤ bound ∧ n.Denotes k ∧ m.Denotes k

def SameOptional (a b : Option Value) : Prop :=
  a = b ∨ (a = none ∨ a = some .null) ∧ (b = none ∨ b = some .null)

/-- The members of one entry in two spellings. Only the default of a register counts, and no other key does. -/
structure Entry.Respells (c : Category) (ms ns : Members) : Prop where
  id : SameNumber 65535 (Members.get? "id" ms) (Members.get? "id" ns)
  name : Members.get? "name" ms = Members.get? "name" ns
  declaredType : Members.get? "type" ms = Members.get? "type" ns
  encoding : SameOptional (Members.get? "encoding" ms) (Members.get? "encoding" ns)
  default : c = .register → Members.get? "default" ms = Members.get? "default" ns

def SameEntry (c : Category) (v w : Value) : Prop :=
  v = w ∨ ∃ ms ns, v = .object ms ∧ w = .object ns ∧ Entry.Respells c ms ns

/-- What a document has in a category, in two spellings. Registers may be left out or null. -/
def SameEntries (c : Category) (a b : Option Value) : Prop :=
  a = b ∨ (c = .register ∧ SameOptional a b) ∨
    ∃ vs ws, a = some (.array vs) ∧ b = some (.array ws) ∧ List.Forall₂ (SameEntry c) vs ws

/-- The members of one document in two spellings; no other key counts. -/
structure Document.Respells (ms ns : Members) : Prop where
  serviceType : Members.get? "type" ms = Members.get? "type" ns
  version : SameNumber 4294967295 (Members.get? "version" ms) (Members.get? "version" ns)
  entries : ∀ c : Category, SameEntries c (Members.get? c.key ms) (Members.get? c.key ns)

def SameDocument (v w : Value) : Prop :=
  v = w ∨ ∃ ms ns, v = .object ms ∧ w = .object ns ∧ Document.Respells ms ns

theorem SameNumber.symm {bound : Nat} {a b : Option Value} (h : SameNumber bound a b) : SameNumber bound b a := by
  rcases h with h | ⟨n, m, k, hn, hm, hk, hdn, hdm⟩
  · exact .inl h.symm
  · exact .inr ⟨m, n, k, hm, hn, hk, hdm, hdn⟩

theorem SameOptional.symm {a b : Option Value} (h : SameOptional a b) : SameOptional b a :=
  h.imp Eq.symm And.symm

theorem SameEntry.symm {c : Category} {v w : Value} (h : SameEntry c v w) : SameEntry c w v := by
  rcases h with h | ⟨ms, ns, hv, hw, hid, hname, htype, hencoding, hdefault⟩
  · exact .inl h.symm
  · exact .inr ⟨ns, ms, hw, hv, hid.symm, hname.symm, htype.symm, hencoding.symm, fun hc => (hdefault hc).symm⟩

theorem SameEntries.symm {c : Category} {a b : Option Value} (h : SameEntries c a b) : SameEntries c b a := by
  rcases h with h | ⟨hc, h⟩ | ⟨vs, ws, hvs, hws, h⟩
  · exact .inl h.symm
  · exact .inr (.inl ⟨hc, h.symm⟩)
  · exact .inr (.inr ⟨ws, vs, hws, hvs, (h.imp fun _ _ => SameEntry.symm).flip⟩)

theorem SameDocument.symm {v w : Value} (h : SameDocument v w) : SameDocument w v := by
  rcases h with h | ⟨ms, ns, hv, hw, htype, hversion, hentries⟩
  · exact .inl h.symm
  · exact .inr ⟨ns, ms, hw, hv, htype.symm, hversion.symm, fun c => (hentries c).symm⟩

/-! ## Typed views -/

/-- The same entry, up to a default that is not carried. -/
def Entry.Alike (c : Category) (e f : Entry) : Prop :=
  f = { e with default := f.default } ∧ (c = .register → f.default = e.default)

theorem Entry.Alike.refl (c : Category) (e : Entry) : Entry.Alike c e e := ⟨rfl, fun _ => rfl⟩

/-- What a number denotes, the same number denotes in another spelling. -/
theorem denotes_of_sameNumber {bound : Nat} {a b : Option Value} (h : SameNumber bound a b) {k : Nat}
    (ha : ∃ n, a = some (.number n) ∧ n.Denotes k) : ∃ m, b = some (.number m) ∧ m.Denotes k := by
  obtain ⟨n, hn, hk⟩ := ha
  rcases h with rfl | ⟨n', m, j, hn', hm, -, hdn, hdm⟩
  · exact ⟨n, hn, hk⟩
  · cases hn.symm.trans hn'
    exact ⟨m, hm, hk.unique hdn ▸ hdm⟩

theorem readFrom_of_entry {c : Category} {ms ns : Members} (h : Entry.Respells c ms ns) {e : Entry}
    (hfrom : Entry.ReadFrom ms e) : ∃ f, Entry.ReadFrom ns f ∧ Entry.Alike c e f := by
  refine ⟨{ e with default := Members.get? "default" ns }, ⟨?_, ?_, ?_, ?_, rfl⟩, rfl, ?_⟩
  · exact denotes_of_sameNumber h.id hfrom.id
  · exact h.name ▸ hfrom.name
  · exact h.declaredType ▸ hfrom.declaredType
  · have hencoding := hfrom.encoding
    rcases h.encoding with heq | ⟨hms, hns⟩
    · rwa [← heq]
    · cases he : e.encoding with
      | none => exact hns
      | some s =>
        rw [he] at hencoding
        rw [hencoding] at hms
        simp at hms
  · intro hc
    exact (h.default hc).symm.trans hfrom.default.symm

theorem readFrom_of_entries {c : Category} {vs ws : List Value} (h : List.Forall₂ (SameEntry c) vs ws)
    {es : List Entry} (hfrom : EntriesReadFrom vs es) :
    ∃ fs, EntriesReadFrom ws fs ∧ List.Forall₂ (Entry.Alike c) es fs := by
  induction h generalizing es with
  | nil =>
    cases hfrom
    exact ⟨[], .nil, .nil⟩
  | cons hhead _ ih =>
    cases hfrom with
    | cons he hes =>
      obtain ⟨fs, hfs, halike⟩ := ih hes
      obtain ⟨ms, hms, hfrom⟩ := he
      rcases hhead with heq | ⟨ms', ns, hms', hns, hrespells⟩
      · exact ⟨_, .cons ⟨ms, heq ▸ hms, hfrom⟩ hfs, .cons (.refl c _) halike⟩
      · cases hms.symm.trans hms'
        obtain ⟨f, hf, hef⟩ := readFrom_of_entry hrespells hfrom
        exact ⟨f :: fs, .cons ⟨ns, hns, hf⟩ hfs, .cons hef halike⟩

namespace Document

theorem readFrom_of_category {ms ns : Members} {d : Document} (hfrom : ReadFrom ms d) {c : Category}
    (h : SameEntries c (Members.get? c.key ms) (Members.get? c.key ns)) :
    ∃ fs, List.Forall₂ (Entry.Alike c) (d.entries c) fs ∧
      ((∃ ws, Members.get? c.key ns = some (.array ws) ∧ EntriesReadFrom ws fs) ∨
        (c = .register ∧ (Members.get? c.key ns = none ∨ Members.get? c.key ns = some .null) ∧ fs = [])) := by
  rcases h with heq | ⟨hc, heq | ⟨hms, hns⟩⟩ | ⟨vs, ws, hvs, hws, hsame⟩
  · exact ⟨_, List.forall₂_same.2 fun e _ => .refl c e, heq ▸ hfrom.entries c⟩
  · exact ⟨_, List.forall₂_same.2 fun e _ => .refl c e, heq ▸ hfrom.entries c⟩
  · refine ⟨[], ?_, .inr ⟨hc, hns, rfl⟩⟩
    rw [hfrom.entries_of_none hms]
    exact .nil
  · obtain ⟨fs, hfs, halike⟩ := readFrom_of_entries hsame (hfrom.entries_of_array hvs)
    exact ⟨fs, halike, .inl ⟨ws, hws, hfs⟩⟩

/-- Another spelling is read as the same document, up to defaults that are not carried. -/
theorem readFrom_respelled {ms ns : Members} (h : Respells ms ns) {d : Document} (hfrom : ReadFrom ms d) :
    ∃ d', ReadFrom ns d' ∧ d'.serviceType = d.serviceType ∧ d'.version = d.version ∧
      ∀ c, List.Forall₂ (Entry.Alike c) (d.entries c) (d'.entries c) := by
  obtain ⟨inputs, hinputs, hfromInputs⟩ := readFrom_of_category hfrom (h.entries .input)
  obtain ⟨outputs, houtputs, hfromOutputs⟩ := readFrom_of_category hfrom (h.entries .output)
  obtain ⟨registers, hregisters, hfromRegisters⟩ := readFrom_of_category hfrom (h.entries .register)
  refine ⟨⟨d.serviceType, d.version, inputs, outputs, registers⟩, ⟨?_, ?_, ?_⟩, rfl, rfl, ?_⟩
  · exact h.serviceType ▸ hfrom.serviceType
  · exact denotes_of_sameNumber h.version hfrom.version
  · intro c
    cases c with
    | input => exact hfromInputs
    | output => exact hfromOutputs
    | register => exact hfromRegisters
  · intro c
    cases c with
    | input => exact hinputs
    | output => exact houtputs
    | register => exact hregisters

end Document

/-! ## Services -/

theorem selection_of_alike {c : Category} {e f : Entry} (h : Entry.Alike c e f) (p : Profile) :
    f.selection p c = e.selection p c := by
  rw [h.1]
  rfl

theorem ofEntry_of_alike {c : Category} {e f : Entry} (h : Entry.Alike c e f) (k : FieldKind) :
    Field.ofEntry c f k = Field.ofEntry c e k := by
  obtain ⟨hother, hdefault⟩ := h
  have hliteral : f.defaultLiteral c = e.defaultLiteral c := by
    unfold Entry.defaultLiteral
    split
    · rw [hdefault ‹_›]
    · rfl
  rw [Field.ofEntry, hliteral, hother]
  rfl

theorem ids_of_alike {c : Category} {es fs : List Entry} (h : List.Forall₂ (Entry.Alike c) es fs) :
    fs.map Entry.id = es.map Entry.id := by
  induction h with
  | nil => rfl
  | cons hhead _ ih => rw [List.map_cons, List.map_cons, ih, hhead.1]

theorem checkIds_of_alike {d d' : Document} (h : ∀ c, List.Forall₂ (Entry.Alike c) (d.entries c) (d'.entries c))
    (cs : List Category) : d'.checkIds cs = d.checkIds cs := by
  induction cs with
  | nil => rfl
  | cons c cs ih => rw [Document.checkIds, Document.checkIds, ids_of_alike (h c), ih]

theorem field_of_alike {c : Category} {e f : Entry} (h : Entry.Alike c e f) (p : Profile) (i : Nat) :
    f.field p c i = e.field p c i := by
  have hfields : Field.ofEntry c f = Field.ofEntry c e := funext (ofEntry_of_alike h)
  have herrors : CompileError.ofEntry c i f = CompileError.ofEntry c i e := by
    funext fault
    rw [h.1]
    cases fault <;> rfl
  rw [Entry.field, Entry.field, selection_of_alike h, hfields, herrors]

theorem fieldsFrom_of_alike {c : Category} {es fs : List Entry} (h : List.Forall₂ (Entry.Alike c) es fs) (p : Profile)
    (i : Nat) : fieldsFrom p c i fs = fieldsFrom p c i es := by
  induction h generalizing i with
  | nil => rfl
  | cons hhead _ ih => rw [fieldsFrom, fieldsFrom, field_of_alike hhead, ih]

def Service.withCopies (s : Service) (w : Value) : Service := { s with json := w.pretty, cbor := Cbor.encode w }

theorem result_assembleService_of_alike {d d' : Document} (htype : d'.serviceType = d.serviceType)
    (hversion : d'.version = d.version)
    (hentries : ∀ c, List.Forall₂ (Entry.Alike c) (d.entries c) (d'.entries c)) (p : Profile) (v w : Value) :
    (assembleService p w d').result = (assembleService p v d).result.map (Service.withCopies · w) := by
  have hinputs := fieldsFrom_of_alike (hentries .input) p 0
  have houtputs := fieldsFrom_of_alike (hentries .output) p 0
  have hregisters := fieldsFrom_of_alike (hentries .register) p 0
  simp only [Document.entries] at hinputs houtputs hregisters
  simp only [result_assembleService, hinputs, houtputs, hregisters, htype, hversion]
  cases fieldsFrom p .input 0 d.inputs with
  | error => rfl
  | ok inputs =>
    cases fieldsFrom p .output 0 d.outputs with
    | error => rfl
    | ok outputs =>
      cases fieldsFrom p .register 0 d.registers with
      | error => rfl
      | ok registers => rfl

theorem shaped_of_sameDocument {v w : Value} (h : SameDocument v w) (hv : ServiceShaped v) : ServiceShaped w := by
  obtain ⟨ms, d, rfl, -, hfrom⟩ := Document.ofValue_of_shaped hv
  rcases h with rfl | ⟨ms', ns, hms, rfl, hrespells⟩
  · exact hv
  · cases hms
    obtain ⟨d', hfrom', -⟩ := Document.readFrom_respelled hrespells hfrom
    exact hfrom'.shaped

/-- Another spelling of a document compiles to the same, but for the copies of the document. -/
theorem result_compile_respelled {v w : Value} (h : SameDocument v w) (hv : ServiceShaped v) (p : Profile) :
    (compile p w).result = (compile p v).result.map (Service.withCopies · w) := by
  obtain ⟨ms, d, rfl, -, hfrom⟩ := Document.ofValue_of_shaped hv
  have hread : ∃ ns d', w = .object ns ∧ Document.ReadFrom ns d' ∧ d'.serviceType = d.serviceType ∧
      d'.version = d.version ∧ ∀ c, List.Forall₂ (Entry.Alike c) (d.entries c) (d'.entries c) := by
    rcases h with rfl | ⟨ms', ns, hms, rfl, hrespells⟩
    · exact ⟨ms, d, rfl, hfrom, rfl, rfl, fun c => List.forall₂_same.2 fun e _ => .refl c e⟩
    · cases hms
      obtain ⟨d', hfrom', halike⟩ := Document.readFrom_respelled hrespells hfrom
      exact ⟨ns, d', rfl, hfrom', halike⟩
  obtain ⟨ns, d', rfl, hfrom', htype, hversion, hentries⟩ := hread
  rw [compile_of_readFrom hfrom, compile_of_readFrom hfrom', checkIds_of_alike hentries,
    result_assembleService_of_alike htype hversion hentries p (.object ms)]
  cases d.checkIds Category.all <;> rfl

/-! ## Ids in another spelling -/

def IdDenotes (v : Value) (k : Nat) : Prop :=
  ∃ ms n, v = .object ms ∧ Members.get? "id" ms = some (.number n) ∧ n.Denotes k

/-- Two entries of one category have ids that denote the same number. -/
def RepeatsId (v : Value) : Prop :=
  ∃ ms c vs k, v = .object ms ∧ Members.get? (Category.key c) ms = some (.array vs) ∧
    ∃ i j : Nat, i < j ∧ (∃ a, vs[i]? = some a ∧ IdDenotes a k) ∧ ∃ b, vs[j]? = some b ∧ IdDenotes b k

theorem idDenotes_iff {v : Value} {e : Entry} {k : Nat} (h : ∃ ms, v = .object ms ∧ Entry.ReadFrom ms e) :
    IdDenotes v k ↔ e.id.toNat = k := by
  obtain ⟨ms, rfl, hfrom⟩ := h
  obtain ⟨n, hn, hid⟩ := hfrom.id
  constructor
  · rintro ⟨ms', m, hms, hm, hk⟩
    cases hms
    cases hn.symm.trans hm
    exact hid.unique hk
  · rintro rfl
    exact ⟨ms, n, rfl, hn, hid⟩

/-- The id at a position is what the id of the entry there denotes. -/
theorem idDenotes_getElem? {vs : List Value} {es : List Entry} (h : EntriesReadFrom vs es) (i k : Nat) :
    (∃ a, vs[i]? = some a ∧ IdDenotes a k) ↔ ∃ id, (es.map Entry.id)[i]? = some id ∧ id.toNat = k := by
  induction h generalizing i with
  | nil => simp
  | cons hhead _ ih =>
    cases i with
    | zero => simp [idDenotes_iff hhead]
    | succ i => exact ih i

theorem not_nodup_iff {ids : List UInt16} : ¬ ids.Nodup ↔
    ∃ k i j : Nat, i < j ∧ (∃ a, ids[i]? = some a ∧ a.toNat = k) ∧ ∃ b, ids[j]? = some b ∧ b.toNat = k := by
  rw [List.nodup_iff_getElem?_ne_getElem?]
  constructor
  · intro h
    push Not at h
    obtain ⟨i, j, hij, hj, hsame⟩ := h
    rw [List.getElem?_eq_getElem hj] at hsame
    exact ⟨_, i, j, hij, ⟨_, hsame, rfl⟩, _, List.getElem?_eq_getElem hj, rfl⟩
  · rintro ⟨k, i, j, hij, ⟨a, ha, rfl⟩, b, hb, hab⟩ h
    obtain rfl : b = a := UInt16.toNat_inj.1 hab
    obtain ⟨hj, -⟩ := List.getElem?_eq_some_iff.1 hb
    exact h i j hij hj (ha.trans hb.symm)

theorem repeatsId_iff {ms : Members} {d : Document} (h : Document.ReadFrom ms d) :
    RepeatsId (.object ms) ↔ ∃ c, ¬ (d.ids c).Nodup := by
  simp only [not_nodup_iff, Document.ids]
  constructor
  · rintro ⟨ms', c, vs, k, hms, hvs, i, j, hij, ha, hb⟩
    cases hms
    have hes := h.entries_of_array hvs
    exact ⟨c, k, i, j, hij, (idDenotes_getElem? hes i k).1 ha, (idDenotes_getElem? hes j k).1 hb⟩
  · rintro ⟨c, k, i, j, hij, ha, hb⟩
    rcases h.entries c with ⟨vs, hvs, hes⟩ | ⟨-, -, hes⟩
    · exact ⟨ms, c, vs, k, rfl, hvs, i, j, hij, (idDenotes_getElem? hes i k).2 ha, (idDenotes_getElem? hes j k).2 hb⟩
    · rw [hes] at ha
      simp at ha

/-- Two ids that denote one number are reported, however they are spelt. -/
theorem repeatsId_iff_duplicateId (p : Profile) {v : Value} (h : ServiceShaped v) :
    RepeatsId v ↔ ∃ c id, (compile p v).result = .error (.duplicateId c id) := by
  obtain ⟨ms, d, rfl, -, hfrom⟩ := Document.ofValue_of_shaped h
  rw [repeatsId_iff hfrom, compile_of_readFrom hfrom]
  cases hids : d.checkIds Category.all with
  | error e =>
    obtain ⟨c, id, hfirst, rfl⟩ := Document.checkIds_all_eq_error.1 hids
    obtain ⟨before, after, hsplit, -, hmem⟩ := hfirst.1
    refine iff_of_true ⟨c, ?_⟩ ⟨c, id, rfl⟩
    rw [hsplit, List.nodup_append]
    rintro ⟨-, -, hdisjoint⟩
    exact hdisjoint id hmem id List.mem_cons_self rfl
  | ok u =>
    have hnodup := checkIds_all_eq_ok.1 hids
    refine iff_of_false (fun ⟨c, hc⟩ => hc (hnodup c)) ?_
    rintro ⟨c, id, herror⟩
    obtain ⟨c', i, e, fault, -, heq⟩ := assembleService_eq_error.1 herror
    cases fault <;> cases heq

/-- Documents that spell one document compile alike: to services that differ in the copies of the document alone, or
not at all, with the same error unless the shape is at fault. Ids repeat however they are spelt. -/
theorem compile_respelled (p : Profile) {v w : Value} (h : SameDocument v w) :
    ((∃ s, (compile p v).result = .ok s) ↔ ∃ t, (compile p w).result = .ok t) ∧
    (∀ s t, (compile p v).result = .ok s → (compile p w).result = .ok t →
      t = { s with json := t.json, cbor := t.cbor }) ∧
    (∀ e : CompileError, e.kind ≠ "MalformedSchemaError" →
      ((compile p v).result = .error e ↔ (compile p w).result = .error e)) ∧
    (ServiceShaped v → (RepeatsId v ↔ RepeatsId w) ∧
      (RepeatsId v ↔ ∃ c id, (compile p v).result = .error (.duplicateId c id))) := by
  by_cases hv : ServiceShaped v
  · have hw := shaped_of_sameDocument h hv
    have hresult := result_compile_respelled h hv p
    have hrepeats := repeatsId_iff_duplicateId p hv
    refine ⟨?_, ?_, ?_, fun _ => ⟨?_, hrepeats⟩⟩
    · simp [hresult, map_eq_ok]
    · intro s t hs ht
      rw [hresult, hs] at ht
      cases ht
      rfl
    · intro e _
      rw [hresult]
      cases (compile p v).result <;> simp
    · rw [hrepeats, repeatsId_iff_duplicateId p hw, hresult]
      cases (compile p v).result <;> simp
  · have hw : ¬ ServiceShaped w := fun hw => hv (shaped_of_sameDocument h.symm hw)
    obtain ⟨violation, hresult⟩ := compile_of_not_shaped hv p
    obtain ⟨violation', hresult'⟩ := compile_of_not_shaped hw p
    rw [hresult, hresult']
    refine ⟨by simp, nofun, ?_, fun h => absurd h hv⟩
    intro e hkind
    refine iff_of_false ?_ ?_
    · rintro ⟨⟩
      exact hkind rfl
    · rintro ⟨⟩
      exact hkind rfl

/-- A natural number as a double, if it fits. -/
def wholeDouble (n : Nat) : Double := (Double.ofNat? n).getD (.zero false)

def sensorInput (id : Number) (name : String) : Value :=
  .object [("id", .number id), ("name", .string name), ("type", .string "float")]

/-- An input with a double for its id, a null, a default that is not carried, and a key of its own. -/
def inputRespelled : Value := .object [
  ("default", .number (.ofWord 5)),
  ("encoding", .null),
  ("id", .number (.double (wholeDouble 3))),
  ("name", .string "rate"),
  ("type", .string "float"),
  ("unit", .string "Hz")]

def sensorSchema (inputs : List Value) : Value := .object [
  ("inputs", .array inputs),
  ("outputs", .array []),
  ("type", .string "Sensor"),
  ("version", .number (.ofWord 1))]

def sensorRespelled : Value := .object [
  ("inputs", .array [inputRespelled]),
  ("note", .string "draft"),
  ("outputs", .array []),
  ("registers", .null),
  ("type", .string "Sensor"),
  ("version", .number (.double (wholeDouble 1)))]

theorem denotes_one : (Number.double (wholeDouble 1)).Denotes 1 := ⟨by decide +kernel, by decide +kernel⟩

theorem denotes_three : (Number.double (wholeDouble 3)).Denotes 3 := ⟨by decide +kernel, by decide +kernel⟩

theorem sameEntry_input : SameEntry .input (sensorInput (.ofWord 3) "rate") inputRespelled :=
  .inr ⟨_, _, rfl, rfl, .inr ⟨_, _, 3, rfl, rfl, by decide, rfl, denotes_three⟩, rfl, rfl, .inr ⟨.inl rfl, .inr rfl⟩,
    nofun⟩

theorem sameDocument_sensor : SameDocument (sensorSchema [sensorInput (.ofWord 3) "rate"]) sensorRespelled := by
  refine .inr ⟨_, _, rfl, rfl, rfl, .inr ⟨_, _, 1, rfl, rfl, by decide, rfl, denotes_one⟩, ?_⟩
  intro c
  cases c with
  | input => exact .inr (.inr ⟨_, _, rfl, rfl, .cons sameEntry_input .nil⟩)
  | output => exact .inl rfl
  | register => exact .inr (.inl ⟨rfl, .inr ⟨.inl rfl, .inr rfl⟩⟩)

/-- A sensor with two inputs, of the ids 3 and 3.0. -/
def crowdedSchema : Value :=
  sensorSchema [sensorInput (.ofWord 3) "rate", sensorInput (.double (wholeDouble 3)) "gain"]

theorem sameDocument_crowded :
    SameDocument crowdedSchema (sensorSchema [sensorInput (.ofWord 3) "rate", sensorInput (.ofWord 3) "gain"]) := by
  have hgain : SameEntry .input (sensorInput (.double (wholeDouble 3)) "gain") (sensorInput (.ofWord 3) "gain") :=
    .inr ⟨_, _, rfl, rfl, .inr ⟨_, _, 3, rfl, rfl, by decide, denotes_three, rfl⟩, rfl, rfl, .inl rfl, nofun⟩
  refine .inr ⟨_, _, rfl, rfl, rfl, .inl rfl, ?_⟩
  intro c
  cases c with
  | input => exact .inr (.inr ⟨_, _, rfl, rfl, .cons (.inl rfl) (.cons hgain .nil)⟩)
  | output | register => exact .inl rfl

theorem repeatsId_crowded : RepeatsId crowdedSchema :=
  ⟨_, .input, _, 3, rfl, rfl, 0, 1, by decide, ⟨_, rfl, _, _, rfl, rfl, rfl⟩, _, rfl, _, _, rfl, rfl, denotes_three⟩

theorem compile_respelled_sensor : ∃ v, v = sensorSchema [sensorInput (.ofWord 3) "rate"] ∧
    SameDocument v sensorRespelled ∧
    (∃ s t, (compile .standard v).result = .ok s ∧ (compile .standard sensorRespelled).result = .ok t ∧
      s.inputs.map Field.id = [3] ∧ t = { s with json := t.json, cbor := t.cbor }) ∧
    RepeatsId crowdedSchema ∧ ∃ c id, (compile .standard crowdedSchema).result = .error (.duplicateId c id) := by
  have hcompiles : ((compile .standard (sensorSchema [sensorInput (.ofWord 3) "rate"])).result.toOption.map fun s =>
      s.inputs.map Field.id) = some [3] := by decide +kernel
  obtain ⟨s, hs, hids⟩ := Option.map_eq_some_iff.1 hcompiles
  have hresult := eq_ok_of_toOption hs
  obtain ⟨hiff, hsame, -⟩ := compile_respelled .standard sameDocument_sensor
  obtain ⟨t, ht⟩ := hiff.1 ⟨s, hresult⟩
  have hshaped : ServiceShaped crowdedSchema := firstViolation_eq_none.1 (by decide +kernel)
  obtain ⟨-, -, -, hrepeats⟩ := compile_respelled .standard sameDocument_crowded
  exact ⟨_, rfl, sameDocument_sensor, ⟨s, t, hresult, ht, hids, hsame s t hresult ht⟩, repeatsId_crowded,
    (hrepeats hshaped).2.1 repeatsId_crowded⟩

end ServiceSchema
