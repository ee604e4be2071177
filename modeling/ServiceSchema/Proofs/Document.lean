import Mathlib.Data.List.Forall2
import ServiceSchema.Document
import ServiceSchema.Proofs.Result
import ServiceSchema.Proofs.Shape

/-! # Reading service documents
What the typed view takes from a document, and that it can be taken from every document of the service
shape. The shape rules and the view were written apart, but they agree on every document whose entries are
objects. -/
namespace ServiceSchema
open ServiceSchema.Json ServiceSchema.Shape

structure Entry.ReadFrom (ms : Members) (e : Entry) : Prop where
  id : ∃ n, Members.get? "id" ms = some (.number n) ∧ n.Denotes e.id.toNat
  name : Members.get? "name" ms = some (.string e.name)
  declaredType : Members.get? "type" ms = some (.string e.declaredType)
  encoding : match e.encoding with
    | some s => Members.get? "encoding" ms = some (.string s)
    | none => Members.get? "encoding" ms = none ∨ Members.get? "encoding" ms = some .null
  default : e.default = Members.get? "default" ms

def EntriesReadFrom (vs : List Value) (es : List Entry) : Prop :=
  List.Forall₂ (fun v e => ∃ ms, v = .object ms ∧ Entry.ReadFrom ms e) vs es

/-- An entry is all that can be read from its members. -/
theorem Entry.ReadFrom.unique {ms : Members} {e f : Entry} (he : Entry.ReadFrom ms e) (hf : Entry.ReadFrom ms f) :
    e = f := by
  obtain ⟨id, name, declaredType, encoding, default⟩ := e
  obtain ⟨id', name', declaredType', encoding', default'⟩ := f
  obtain ⟨⟨n, hn, hid⟩, hname, htype, hencoding, hdefault⟩ := he
  obtain ⟨⟨n', hn', hid'⟩, hname', htype', hencoding', hdefault'⟩ := hf
  rw [hn] at hn'
  rw [hname] at hname'
  rw [htype] at htype'
  cases hn'
  cases hname'
  cases htype'
  have hsame : id = id' := UInt16.toNat_inj.1 (hid.unique hid')
  have hsameEncoding : encoding = encoding' := by
    cases encoding <;> cases encoding' <;> simp_all
  simp only at hdefault hdefault'
  rw [hsame, hsameEncoding, hdefault, hdefault']

theorem Entry.ReadFrom.members {ms : Members} {e : Entry} (h : Entry.ReadFrom ms e) : EntryMembers ms := by
  obtain ⟨⟨n, hn, hid⟩, hname, htype, hencoding, -⟩ := h
  have hbound : e.id.toNat ≤ 65535 := Nat.le_of_lt_succ e.id.toNat_lt
  refine ⟨⟨_, hn, n, _, rfl, hbound, hid⟩, ⟨_, hname, _, rfl⟩, ⟨_, htype, _, rfl⟩, ?_⟩
  intro v hv
  cases he : e.encoding with
  | none =>
    rw [he] at hencoding
    rcases hencoding with hnone | hnull
    · cases hv.symm.trans hnone
    · exact .inl (Option.some.inj (hv.symm.trans hnull))
  | some s =>
    rw [he] at hencoding
    exact .inr ⟨s, Option.some.inj (hv.symm.trans hencoding)⟩

theorem EntriesReadFrom.unique {vs : List Value} {es fs : List Entry} (he : EntriesReadFrom vs es)
    (hf : EntriesReadFrom vs fs) : es = fs := by
  induction he generalizing fs with
  | nil =>
    cases hf
    rfl
  | cons hhead _ ih =>
    cases hf with
    | cons hhead' htail =>
      obtain ⟨ms, rfl, hms⟩ := hhead
      obtain ⟨_, heq, hms'⟩ := hhead'
      cases heq
      rw [hms.unique hms', ih htail]

theorem EntriesReadFrom.entryList {vs : List Value} {es : List Entry} (h : EntriesReadFrom vs es) :
    EntryList (.array vs) := by
  refine ⟨vs, rfl, ?_⟩
  induction h with
  | nil => exact nofun
  | cons hhead _ ih =>
    obtain ⟨ms, rfl, hms⟩ := hhead
    exact List.forall_mem_cons.2 ⟨⟨ms, rfl, hms.members⟩, ih⟩

namespace Document

/-- The members a document was read from. Registers that are left out, or null, are none. -/
structure ReadFrom (ms : Members) (d : Document) : Prop where
  serviceType : Members.get? "type" ms = some (.string d.serviceType)
  version : ∃ n, Members.get? "version" ms = some (.number n) ∧ n.Denotes d.version.toNat
  entries : ∀ c : Category, (∃ vs, Members.get? c.key ms = some (.array vs) ∧ EntriesReadFrom vs (d.entries c)) ∨
    (c = .register ∧ (Members.get? c.key ms = none ∨ Members.get? c.key ms = some .null) ∧ d.entries c = [])

theorem readId_of_within {v : Value} (h : IntegerWithin 65535 v) :
    ∃ (id : UInt16) (n : Number), v = .number n ∧ n.Denotes id.toNat ∧ readId v = .ok id := by
  obtain ⟨n, k, rfl, hk, hn⟩ := h
  have hid : (UInt16.ofNat k).toNat = k := UInt16.toNat_ofNat_of_lt' (by simp only [UInt16.size]; omega)
  refine ⟨.ofNat k, n, rfl, hid.symm ▸ hn, ?_⟩
  rw [readId, Number.toUnsigned?_of_denotes hn (by omega)]
  exact if_pos (by omega)

theorem readVersion_of_has {ms : Members} (h : Has ms "version" (IntegerWithin 4294967295)) :
    ∃ (version : UInt32) (n : Number), Members.get? "version" ms = some (.number n) ∧ n.Denotes version.toNat ∧
      readVersion ms = .ok version := by
  obtain ⟨v, hv, n, k, rfl, hk, hn⟩ := h
  have hversion : (UInt32.ofNat k).toNat = k := UInt32.toNat_ofNat_of_lt' (by simp only [UInt32.size]; omega)
  refine ⟨.ofNat k, n, hv, hversion.symm ▸ hn, ?_⟩
  rw [readVersion, hv]
  simp only [Number.toUnsigned?_of_denotes hn (by omega)]
  exact if_pos (by omega)

theorem readObject_of_members {ms : Members} (h : EntryMembers ms) :
    ∃ e, readObject ms = .ok e ∧ Entry.ReadFrom ms e := by
  obtain ⟨⟨v, hv, hid⟩, ⟨_, hname, name, rfl⟩, ⟨_, htype, declaredType, rfl⟩, hencoding⟩ := h
  obtain ⟨id, n, rfl, hn, hreadId⟩ := readId_of_within hid
  have hread (encoding : Option String) (hread : (Members.get? "encoding" ms = none ∧ encoding = none) ∨
      ∃ w, Members.get? "encoding" ms = some w ∧ readEncoding w = .ok encoding) :
      readObject ms = .ok ⟨id, name, declaredType, encoding, Members.get? "default" ms⟩ := by
    rw [readObject, hv, hname, htype]
    simp only [Option.mapM_some, hreadId, readString]
    rcases hread with ⟨hget, rfl⟩ | ⟨w, hget, hw⟩
    · rw [hget]
      rfl
    · simp only [hget, hw]
      rfl
  cases hget : Members.get? "encoding" ms with
  | none => exact ⟨_, hread none (.inl ⟨hget, rfl⟩), ⟨n, hv, hn⟩, hname, htype, .inl hget, rfl⟩
  | some w =>
    rcases hencoding w hget with rfl | ⟨s, rfl⟩
    · exact ⟨_, hread none (.inr ⟨_, hget, rfl⟩), ⟨n, hv, hn⟩, hname, htype, .inr hget, rfl⟩
    · exact ⟨_, hread (some s) (.inr ⟨_, hget, rfl⟩), ⟨n, hv, hn⟩, hname, htype, hget, rfl⟩

theorem readEntries_of_shaped {vs : List Value} (h : ∀ v ∈ vs, EntryShaped v) (c : Category) (i : Nat) :
    ∃ es, readEntries c i vs = .ok es ∧ EntriesReadFrom vs es := by
  induction vs generalizing i with
  | nil => exact ⟨[], rfl, .nil⟩
  | cons v vs ih =>
    obtain ⟨ms, rfl, hms⟩ := h v List.mem_cons_self
    obtain ⟨e, he, hfrom⟩ := readObject_of_members hms
    obtain ⟨es, hes, hall⟩ := ih (fun w hw => h w (List.mem_cons_of_mem _ hw)) (i + 1)
    refine ⟨e :: es, ?_, .cons ⟨ms, rfl, hfrom⟩ hall⟩
    simp only [readEntries, readEntry, he, hes, Except.map]

theorem readCategory_of_list {ms : Members} {c : Category} (h : Has ms c.key EntryList) :
    ∃ es, readCategory ms c = .ok es ∧
      ∃ vs, Members.get? c.key ms = some (.array vs) ∧ EntriesReadFrom vs es := by
  obtain ⟨_, hget, vs, rfl, hvs⟩ := h
  obtain ⟨es, hes, hfrom⟩ := readEntries_of_shaped hvs c 0
  exact ⟨es, by rw [readCategory, hget]; exact hes, vs, hget, hfrom⟩

/-- Every document of the service shape has a typed view. -/
theorem ofValue_of_shaped {v : Value} (h : ServiceShaped v) :
    ∃ ms d, v = .object ms ∧ ofValue v = .ok d ∧ ReadFrom ms d := by
  obtain ⟨ms, rfl, ⟨_, htype, serviceType, rfl⟩, hversion, hinputs, houtputs, hregisters⟩ := h
  obtain ⟨version, n, hget, hn, hreadVersion⟩ := readVersion_of_has hversion
  obtain ⟨inputs, hreadInputs, hinputs⟩ := readCategory_of_list (c := .input) hinputs
  obtain ⟨outputs, hreadOutputs, houtputs⟩ := readCategory_of_list (c := .output) houtputs
  have hregisters : ∃ es, readCategory ms .register = .ok es ∧
      ((∃ vs, Members.get? "registers" ms = some (.array vs) ∧ EntriesReadFrom vs es) ∨
        ((Members.get? "registers" ms = none ∨ Members.get? "registers" ms = some .null) ∧ es = [])) := by
    cases hget : Members.get? "registers" ms with
    | none => exact ⟨[], by rw [readCategory, Category.key, hget]; rfl, .inr ⟨.inl rfl, rfl⟩⟩
    | some w =>
      rcases hregisters w hget with rfl | hlist
      · exact ⟨[], by rw [readCategory, Category.key, hget]; rfl, .inr ⟨.inr rfl, rfl⟩⟩
      · obtain ⟨es, hes, hfrom⟩ := readCategory_of_list (c := .register) ⟨w, hget, hlist⟩
        rw [Category.key, hget] at hfrom
        exact ⟨es, hes, .inl hfrom⟩
  obtain ⟨registers, hreadRegisters, hregisters⟩ := hregisters
  refine ⟨ms, ⟨serviceType, version, inputs, outputs, registers⟩, rfl, ?_, htype, ⟨n, hget, hn⟩, fun c => ?_⟩
  · simp only [ofValue, htype, hreadVersion, hreadInputs, hreadOutputs, hreadRegisters]
    rfl
  · cases c with
    | input => exact .inl hinputs
    | output => exact .inl houtputs
    | register => exact hregisters.imp_right fun h => ⟨rfl, h⟩

/-! ## What is read is unique -/

theorem ReadFrom.entries_of_array {ms : Members} {d : Document} (h : ReadFrom ms d) {c : Category} {vs : List Value}
    (hvs : Members.get? c.key ms = some (.array vs)) : EntriesReadFrom vs (d.entries c) := by
  rcases h.entries c with ⟨vs', hvs', hes⟩ | ⟨-, hnone, -⟩
  · cases hvs.symm.trans hvs'
    exact hes
  · rw [hvs] at hnone
    simp at hnone

theorem ReadFrom.entries_of_none {ms : Members} {d : Document} (h : ReadFrom ms d) {c : Category}
    (hnone : Members.get? c.key ms = none ∨ Members.get? c.key ms = some .null) : d.entries c = [] := by
  rcases h.entries c with ⟨vs, hvs, -⟩ | ⟨-, -, hes⟩
  · rw [hvs] at hnone
    simp at hnone
  · exact hes

theorem ReadFrom.entries_unique {ms : Members} {d d' : Document} (h : ReadFrom ms d) (h' : ReadFrom ms d')
    (c : Category) : d.entries c = d'.entries c := by
  rcases h.entries c with ⟨vs, hvs, hes⟩ | ⟨-, hnone, hes⟩
  · exact hes.unique (h'.entries_of_array hvs)
  · rw [hes, h'.entries_of_none hnone]

theorem ReadFrom.unique {ms : Members} {d d' : Document} (h : ReadFrom ms d) (h' : ReadFrom ms d') : d = d' := by
  have hinputs := h.entries_unique h' .input
  have houtputs := h.entries_unique h' .output
  have hregisters := h.entries_unique h' .register
  obtain ⟨serviceType, version, inputs, outputs, registers⟩ := d
  obtain ⟨serviceType', version', inputs', outputs', registers'⟩ := d'
  obtain ⟨n, hn, hversion⟩ := h.version
  obtain ⟨n', hn', hversion'⟩ := h'.version
  cases hn.symm.trans hn'
  cases h.serviceType.symm.trans h'.serviceType
  obtain rfl : version = version' := UInt32.toNat_inj.1 (hversion.unique hversion')
  obtain rfl : inputs = inputs' := hinputs
  obtain rfl : outputs = outputs' := houtputs
  obtain rfl : registers = registers' := hregisters
  rfl

theorem ReadFrom.shaped {ms : Members} {d : Document} (h : ReadFrom ms d) : ServiceShaped (.object ms) := by
  obtain ⟨n, hn, hversion⟩ := h.version
  have hbound : d.version.toNat ≤ 4294967295 := Nat.le_of_lt_succ d.version.toNat_lt
  have hlist (c : Category) (hc : c ≠ .register) : Has ms c.key EntryList := by
    rcases h.entries c with ⟨vs, hvs, hes⟩ | ⟨hregister, -⟩
    · exact ⟨_, hvs, hes.entryList⟩
    · exact absurd hregister hc
  refine ⟨ms, rfl, ⟨_, h.serviceType, _, rfl⟩, ⟨_, hn, n, _, rfl, hbound, hversion⟩, hlist .input nofun,
    hlist .output nofun, ?_⟩
  intro v hv
  rcases h.entries .register with ⟨vs, hvs, hes⟩ | ⟨-, hnone | hnull, -⟩
  · obtain rfl : v = .array vs := Option.some.inj (hv.symm.trans hvs)
    exact .inr hes.entryList
  · cases hv.symm.trans hnone
  · exact .inl (Option.some.inj (hv.symm.trans hnull))

/-! ## Documents with a typed view -/

theorem integerWithin_of_toUnsigned? {bound k : Nat} {n : Number} (h : n.toUnsigned? = some k) (hk : k ≤ bound)
    (hbound : bound < 0xFFFFFFFFFFFFFFFF) : IntegerWithin bound (.number n) :=
  ⟨n, k, rfl, hk, Number.denotes_of_toUnsigned? h (by omega)⟩

theorem within_of_readId {v : Value} {id : UInt16} (h : readId v = .ok id) : IntegerWithin 65535 v := by
  unfold readId at h
  split at h
  · split at h
    · rename_i n k hk
      split at h
      · exact integerWithin_of_toUnsigned? hk (by omega) (by decide)
      · cases h
    · cases h
  · cases h

theorem isString_of_readString {v : Value} {s : String} (h : readString v = .ok s) : IsString v := by
  cases v <;> cases h
  exact ⟨_, rfl⟩

theorem null_or_isString_of_readEncoding {v : Value} {encoding : Option String} (h : readEncoding v = .ok encoding) :
    v = .null ∨ IsString v := by
  unfold readEncoding at h
  split at h
  · exact .inl rfl
  · obtain ⟨s, hs, -⟩ := map_eq_ok.1 h
    exact .inr (isString_of_readString hs)

/-- A key that was found, with a value that could be read. -/
theorem has_of_mapM {α : Type} {ms : Members} {key : String} {read : Value → Except EntryFault α} {a : α}
    {p : Value → Prop} (h : (Members.get? key ms).mapM read = .ok (some a))
    (hread : ∀ v, read v = .ok a → p v) : Has ms key p := by
  cases hget : Members.get? key ms with
  | none =>
    rw [hget] at h
    cases h
  | some v =>
    rw [hget, Option.mapM_some] at h
    obtain ⟨b, hb, h⟩ := bind_eq_ok.1 h
    cases h
    exact ⟨v, hget, hread v hb⟩

/-- The encoding comes first, then what every entry must have. -/
theorem readObject_eq (ms : Members) : readObject ms =
    (match Members.get? "encoding" ms with
      | some v => readEncoding v
      | none => .ok none) >>= fun encoding =>
    (Members.get? "id" ms).mapM readId >>= fun id =>
    (Members.get? "name" ms).mapM readString >>= fun name =>
    (Members.get? "type" ms).mapM readString >>= fun declaredType =>
    match id, name, declaredType with
    | some id, some name, some declaredType =>
      .ok ⟨id, name, declaredType, encoding, Members.get? "default" ms⟩
    | none, _, _ => .error (.missing "id")
    | _, none, _ => .error (.missing "name")
    | _, _, none => .error (.missing "type") := by
  rw [readObject]
  cases Members.get? "encoding" ms <;> rfl

theorem members_of_readObject {ms : Members} {e : Entry} (h : readObject ms = .ok e) : EntryMembers ms := by
  rw [readObject_eq] at h
  obtain ⟨encoding, hencoding, h⟩ := bind_eq_ok.1 h
  obtain ⟨id, hid, h⟩ := bind_eq_ok.1 h
  obtain ⟨name, hname, h⟩ := bind_eq_ok.1 h
  obtain ⟨declaredType, htype, h⟩ := bind_eq_ok.1 h
  split at h
  · refine ⟨has_of_mapM hid fun _ => within_of_readId, has_of_mapM hname fun _ => isString_of_readString,
      has_of_mapM htype fun _ => isString_of_readString, fun v hv => ?_⟩
    rw [hv] at hencoding
    exact null_or_isString_of_readEncoding hencoding
  · cases h
  · cases h
  · cases h

theorem shaped_of_readEntries {c : Category} {i : Nat} {vs : List Value} {es : List Entry}
    (h : readEntries c i vs = .ok es) (hobjects : ∀ v ∈ vs, ∃ ms, v = .object ms) : ∀ v ∈ vs, EntryShaped v := by
  induction vs generalizing i es with
  | nil => exact nofun
  | cons v vs ih =>
    rw [List.forall_mem_cons] at hobjects ⊢
    obtain ⟨⟨ms, rfl⟩, hobjects⟩ := hobjects
    simp only [readEntries] at h
    split at h
    · cases h
    · rename_i e he
      obtain ⟨rest, hrest, -⟩ := map_eq_ok.1 h
      exact ⟨⟨ms, rfl, members_of_readObject he⟩, ih hrest hobjects⟩

def EntriesAreObjects (v : Value) : Prop :=
  ∀ ms c vs, v = .object ms → Members.get? (Category.key c) ms = some (.array vs) →
    ∀ w ∈ vs, ∃ entry, w = .object entry

/-- What was read as a category is a list of entries; registers may be null, or left out. -/
theorem list_of_readCategory {ms : Members} {c : Category} {es : List Entry} (h : readCategory ms c = .ok es)
    (hobjects : EntriesAreObjects (.object ms)) :
    Has ms c.key EntryList ∨
      (c = .register ∧ (Members.get? c.key ms = none ∨ Members.get? c.key ms = some .null)) := by
  unfold readCategory at h
  split at h
  · rename_i vs hget
    exact .inl ⟨_, hget, vs, rfl, shaped_of_readEntries h (hobjects ms c vs rfl hget)⟩
  · rename_i hget
    split at h
    · exact .inr ⟨‹_›, .inl hget⟩
    · cases h
  · rename_i hget
    split at h
    · exact .inr ⟨‹_›, .inr hget⟩
    · cases h
  · cases h

theorem has_of_readCategory {ms : Members} {c : Category} {es : List Entry} (h : readCategory ms c = .ok es)
    (hobjects : EntriesAreObjects (.object ms)) (hc : c ≠ .register) : Has ms c.key EntryList :=
  (list_of_readCategory h hobjects).resolve_right fun hr => hc hr.1

theorem has_of_readVersion {ms : Members} {version : UInt32} (h : readVersion ms = .ok version) :
    Has ms "version" (IntegerWithin 4294967295) := by
  unfold readVersion at h
  split at h
  · rename_i n hget
    split at h
    · rename_i k hk
      split at h
      · exact ⟨_, hget, integerWithin_of_toUnsigned? hk (by omega) (by decide)⟩
      · cases h
    · cases h
  · cases h

/-- A document with a typed view has the service shape, if its entries are objects. -/
theorem shaped_of_ofValue {v : Value} {d : Document} (h : ofValue v = .ok d) (hobjects : EntriesAreObjects v) :
    ServiceShaped v := by
  cases v with
  | object ms =>
    rw [ofValue] at h
    split at h
    case h_2 => cases h
    rename_i serviceType htype
    obtain ⟨_, -, h⟩ := bind_eq_ok.1 h
    obtain ⟨version, hversion, h⟩ := bind_eq_ok.1 h
    obtain ⟨inputs, hinputs, h⟩ := bind_eq_ok.1 h
    obtain ⟨outputs, houtputs, h⟩ := bind_eq_ok.1 h
    obtain ⟨registers, hregisters, -⟩ := bind_eq_ok.1 h
    refine ⟨ms, rfl, ⟨_, htype, serviceType, rfl⟩, has_of_readVersion hversion,
      has_of_readCategory hinputs hobjects nofun, has_of_readCategory houtputs hobjects nofun, fun w hw => ?_⟩
    rcases list_of_readCategory hregisters hobjects with ⟨u, hu, hlist⟩ | ⟨-, hnone | hnull⟩
    · obtain rfl : w = u := Option.some.inj (hw.symm.trans hu)
      exact .inr hlist
    · cases hw.symm.trans hnone
    · exact .inl (Option.some.inj (hw.symm.trans hnull))
  | _ => cases h

/-- The shape rules and the typed view agree. The rules are kept just by the documents of the service shape;
these have a typed view, with exactly their values; and of the documents with a typed view the rules refuse
only those with an entry that is no object. -/
theorem rules_agree_with_view (v : Value) :
    (firstViolation v = none ↔ ServiceShaped v) ∧
    (firstViolation v = none → ∃ ms d, v = .object ms ∧ ofValue v = .ok d ∧ ReadFrom ms d) ∧
    ∀ d, ofValue v = .ok d → EntriesAreObjects v → firstViolation v = none :=
  ⟨firstViolation_eq_none, fun h => ofValue_of_shaped (firstViolation_eq_none.1 h),
    fun _ hd hobjects => firstViolation_eq_none.2 (shaped_of_ofValue hd hobjects)⟩

end Document
end ServiceSchema
