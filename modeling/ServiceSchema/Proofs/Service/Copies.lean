import ServiceSchema.Proofs.Cbor.RoundTrip
import ServiceSchema.Proofs.Json.Rereading
import ServiceSchema.Proofs.Service

/-! # The copies of a schema
A service carries the schema it was compiled from as CBOR and as JSON, and each register its default as JSON. The
CBOR copy always is the schema. The JSON texts are, too, exactly when the reader gives back each double in them, and
it does so for all doubles with few digits. -/
namespace ServiceSchema
open ServiceSchema.Json

/-- The reader gives each double back that is printed alone. -/
def DoublesReadBack (v : Value) : Prop :=
  ∀ x, .number (.double x) ∈ v.subvalues → Json.read (Value.number (.double x)).compact = .ok (.number (.double x))

theorem numbersReadBack_iff {v : Value} : v.NumbersReadBack ↔ DoublesReadBack v := by
  constructor
  · intro h x hx
    exact readsBack_iff_read.1 (h _ hx)
  · intro h n hn
    cases n with
    | integer n hrange => exact readsBack_integer n hrange
    | double x => exact readsBack_iff_read.2 (h x hn)

theorem doublesReadBack_of_short {v : Value} (h : ∀ x, .number (.double x) ∈ v.subvalues → x.Short) :
    DoublesReadBack v :=
  fun x hx => readsBack_iff_read.1 (Double.readsBack_of_short (h x hx))

/-- What the reader can make: members in order, and no deeper than it goes. -/
def Fits (v : Value) : Prop := v.Sorted ∧ v.depth ≤ Reader.maxDepth

theorem fits_subvalues {v : Value} (h : Fits v) : ∀ w ∈ v.subvalues, Fits w := by
  refine Value.forall_subvalues (fun items h v hv => ?_) (fun members h m hm => ?_) h
  · have hdepth := Value.depth_array_le.1 (h.2 : _ ≤ 126 + 1) v hv
    exact ⟨Value.sorted_array.1 h.1 v hv, Nat.le_succ_of_le hdepth⟩
  · have hdepth := Value.depth_object_le.1 (h.2 : _ ≤ 126 + 1) m hm
    exact ⟨(Value.sorted_object.1 h.1).2 m hm, Nat.le_succ_of_le hdepth⟩

theorem readSchema_pretty_iff {v : Value} (h : Fits v) (origin : String) :
    readSchema origin v.pretty = .ok v ↔ DoublesReadBack v :=
  (readSchema_eq_self h.1 h.2 (spells_pretty_lexemes v 0) origin).trans numbersReadBack_iff

theorem readSchema_compact_iff {v : Value} (h : Fits v) (origin : String) :
    readSchema origin v.compact = .ok v ↔ DoublesReadBack v :=
  (readSchema_eq_self h.1 h.2 (spells_compact_lexemes v) origin).trans numbersReadBack_iff

theorem exists_entry {vs : List Value} {es : List Entry} (h : EntriesReadFrom vs es) {e : Entry} (he : e ∈ es) :
    ∃ ms, .object ms ∈ vs ∧ Entry.ReadFrom ms e := by
  induction h with
  | nil => cases he
  | cons hhead _ ih =>
    rcases List.mem_cons.1 he with rfl | he
    · obtain ⟨ms, rfl, hfrom⟩ := hhead
      exact ⟨ms, List.mem_cons_self, hfrom⟩
    · obtain ⟨ms, hms, hfrom⟩ := ih he
      exact ⟨ms, List.mem_cons_of_mem _ hms, hfrom⟩

/-- The default of an entry is a value within the document. -/
theorem default_mem_subvalues {ms : Members} {d : Document} (h : Document.ReadFrom ms d) {c : Category} {e : Entry}
    (he : e ∈ d.entries c) {v : Value} (hv : e.default = some v) : v ∈ (Value.object ms).subvalues := by
  rcases h.entries c with ⟨vs, hvs, hentries⟩ | ⟨-, -, hnone⟩
  · obtain ⟨ems, hems, hfrom⟩ := exists_entry hentries he
    rw [hfrom.default] at hv
    have hself : v ∈ v.subvalues := by cases v <;> simp [Value.subvalues]
    have hentry : v ∈ (Value.object ems).subvalues :=
      Value.mem_subvalues_object.2 (.inr ⟨_, Members.mem_of_get? hv, hself⟩)
    have hlist : v ∈ (Value.array vs).subvalues := Value.mem_subvalues_array.2 (.inr ⟨_, hems, hentry⟩)
    exact Value.mem_subvalues_object.2 (.inr ⟨_, Members.mem_of_get? hvs, hlist⟩)
  · rw [hnone] at he
    cases he

/-- The default of a register reads as that of its entry exactly when the doubles in it are read back. -/
def DefaultAgrees (origin : String) (e : Entry) (f : Field) : Prop :=
  ∀ literal, f.default = some literal →
    ∃ v, e.default = some v ∧ (readSchema origin literal = .ok v ↔ DoublesReadBack v)

theorem defaultAgrees_of_matches {e : Entry} {f : Field} (h : Field.Matches .register e f)
    (hfits : ∀ v, e.default = some v → Fits v) (origin : String) : DefaultAgrees origin e f := by
  intro literal hliteral
  rw [h.default, if_pos rfl, Option.map_eq_some_iff] at hliteral
  obtain ⟨v, hv, rfl⟩ := hliteral
  exact ⟨v, hv, readSchema_compact_iff (hfits v hv) origin⟩

theorem defaultsAgree {es : List Entry} {fs : List Field} (h : List.Forall₂ (Field.Matches .register) es fs)
    (hfits : ∀ e ∈ es, ∀ v, e.default = some v → Fits v) (origin : String) :
    List.Forall₂ (DefaultAgrees origin) es fs := by
  induction h with
  | nil => exact .nil
  | cons hmatches _ ih =>
    rw [List.forall_mem_cons] at hfits
    exact .cons (defaultAgrees_of_matches hmatches hfits.1 origin) (ih hfits.2)

/-- The CBOR copy in a service is the schema that was compiled. The JSON copy is, and the default of a register is
the one in the schema, exactly when the reader gives back all doubles in it. -/
theorem copies_agree {p : Profile} {origin text : String} {doc : Value} {s : Service}
    (hread : readSchema origin text = .ok doc) (hsize : text.utf8ByteSize < 2 ^ 64)
    (hkeys : Cbor.KeysWithin 4096 doc) (hcompile : (compile p doc).result = .ok s) :
    Cbor.decode s.cbor = .ok doc ∧ (readSchema origin s.json = .ok doc ↔ DoublesReadBack doc) ∧
      ∃ ms d, doc = .object ms ∧ Document.ReadFrom ms d ∧
        List.Forall₂ (DefaultAgrees origin) d.registers s.registers := by
  obtain ⟨ms, d, rfl, hfrom, hfields, hjson, hcbor⟩ := matches_of_compile hcompile
  have hfits : Fits (.object ms) := fits_of_readChars (mapError_eq_ok.1 hread)
  refine ⟨?_, ?_, ms, d, rfl, hfrom, ?_⟩
  · have hdecode := Cbor.decode_encode_of_read hread hsize []
    rwa [if_pos (Cbor.leadsFit_of_keysWithin hkeys), List.append_nil, ← hcbor] at hdecode
  · rw [hjson]
    exact readSchema_pretty_iff hfits origin
  · refine defaultsAgree (hfields .register) (fun e he v hv => ?_) origin
    exact fits_subvalues hfits v (default_mem_subvalues hfrom (c := .register) he hv)

def limitSchema (x : Double) : Value := .object [
  ("inputs", .array []),
  ("outputs", .array []),
  ("registers", .array [.object [("default", .number (.double x)), ("id", .number (.ofWord 1)),
    ("name", .string "limit"), ("type", .string "double")]]),
  ("type", .string "Motor"),
  ("version", .number (.ofWord 1))]

def limitText (numeral : String) : String :=
  "\x7b\"type\":\"Motor\",\"version\":1,\"inputs\":[],\"outputs\":[],\"registers\":"
    ++ "[\x7b\"id\":1,\"name\":\"limit\",\"type\":\"double\",\"default\":" ++ numeral ++ "\x7d]\x7d"

/-- The double 1.5. -/
def shortLimit : Double := ⟨false, 0x18000000000000, 1022, by decide, by decide, by decide⟩

theorem shortLimit_short : shortLimit.Short :=
  Double.short_of_few_digits (by decide +kernel) (by decide +kernel) (by decide +kernel)

theorem copies_agree_short : ∃ s, readSchema "schema" (limitText "1.5") = .ok (limitSchema shortLimit) ∧
    (compile .standard (limitSchema shortLimit)).result = .ok s ∧ Cbor.decode s.cbor = .ok (limitSchema shortLimit) ∧
    readSchema "schema" s.json = .ok (limitSchema shortLimit) := by
  have hread : readSchema "schema" (limitText "1.5") = .ok (limitSchema shortLimit) :=
    eq_ok_of_toOption (by decide +kernel)
  have hkeys : Cbor.KeysWithin 4096 (limitSchema shortLimit) := Cbor.keysWithin_of_all (by decide +kernel)
  have hcompiles : ((compile .standard (limitSchema shortLimit)).result.toOption).isSome := by decide +kernel
  obtain ⟨s, hs⟩ := Option.isSome_iff_exists.1 hcompiles
  have hresult := eq_ok_of_toOption hs
  obtain ⟨hcbor, hjson, -⟩ := copies_agree hread (by decide +kernel) hkeys hresult
  refine ⟨s, hread, hresult, hcbor, hjson.2 (doublesReadBack_of_short fun x hx => ?_)⟩
  obtain rfl : x = shortLimit := by
    simpa [limitSchema, Value.subvalues, Value.subvalues.subvaluesItems, Value.subvalues.subvaluesMembers,
      Number.ofWord] using hx
  exact shortLimit_short

/-- The double 3700000000000002. With the zero that is printed after its point, its digits are no double. -/
def longLimit : Double := ⟨false, 7400000000000004, 1073, by decide, by decide, by decide⟩

/-- The copies of a schema can differ. -/
theorem copies_differ : ∃ s, readSchema "schema" (limitText "3.700000000000002e15") = .ok (limitSchema longLimit) ∧
    Cbor.KeysWithin 4096 (limitSchema longLimit) ∧ (compile .standard (limitSchema longLimit)).result = .ok s ∧
    Cbor.decode s.cbor = .ok (limitSchema longLimit) ∧ readSchema "schema" s.json ≠ .ok (limitSchema longLimit) := by
  have hread : readSchema "schema" (limitText "3.700000000000002e15") = .ok (limitSchema longLimit) :=
    eq_ok_of_toOption (by decide +kernel)
  have hkeys : Cbor.KeysWithin 4096 (limitSchema longLimit) := Cbor.keysWithin_of_all (by decide +kernel)
  have hcompiles : ((compile .standard (limitSchema longLimit)).result.toOption).isSome := by decide +kernel
  obtain ⟨s, hs⟩ := Option.isSome_iff_exists.1 hcompiles
  have hresult := eq_ok_of_toOption hs
  obtain ⟨-, -, -, -, -, hjson, hcbor⟩ := matches_of_compile hresult
  have hdecode := Cbor.decode_encode_of_read hread (by decide +kernel) []
  rw [if_pos (Cbor.leadsFit_of_keysWithin hkeys), List.append_nil, ← hcbor] at hdecode
  refine ⟨s, hread, hkeys, hresult, hdecode, ?_⟩
  have hfits : Fits (limitSchema longLimit) := fits_of_readChars (mapError_eq_ok.1 hread)
  rw [hjson, ne_eq, readSchema_pretty_iff hfits]
  intro hback
  have hlimit := hback longLimit (by simp [limitSchema, Value.subvalues, Value.subvalues.subvaluesItems,
    Value.subvalues.subvaluesMembers])
  have hother : (Json.read (Value.number (.double longLimit)).compact).toOption
      ≠ some (.number (.double longLimit)) := by decide +kernel
  exact hother (congrArg Except.toOption hlimit)

end ServiceSchema
