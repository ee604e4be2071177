import ServiceSchema.Proofs.Json.TenZeros
import ServiceSchema.Proofs.Service.Formatting
import ServiceSchema.Proofs.Service.Respelling
import ServiceSchema.Proofs.Shape.Exchange

/-! # Ids and versions in any spelling
An id is understood in all spellings of its number. So is a version with zeros behind its point, unless there are ten
of them or more behind a large odd number. -/
namespace ServiceSchema
open ServiceSchema.Json ServiceSchema.Shape

/-- A text with a token at some place. With another scalar there it would be a schema of the service shape. -/
inductive FitsBut (p : Pointer) (token : List Char) (text : String) : Prop where
  | intro {a b : ScalarToken} {s t : Source} {origin template : String} {v : Value} (htoken : b.chars = token)
    (hexchanged : Source.Exchanged (.scalar a) (.scalar b) p s t) (htemplate : Layout s.tokens template.toList)
    (hread : readSchema origin template = .ok v) (hshaped : ServiceShaped v) (htext : Layout t.tokens text.toList) :
    FitsBut p token text

/-- The text is read with the number of the token at the place. -/
theorem exists_exchanged {p : Pointer} {token : List Char} {text : String} (h : FitsBut p token text) {n : Number}
    (hn : lexemeOf token = .number n) : ∃ x v w, Value.Exchanged x (.number n) p v w ∧ ServiceShaped v ∧
      ∀ origin, readSchema origin text = .ok w := by
  cases h with
  | @intro a b s t origin template v htoken hexchanged htemplate hread hshaped htext =>
    have hlexeme : lexemeOf b.chars = .number n := by rw [htoken, hn]
    have hvalue : b.value = .number n := by
      rw [ScalarToken.value, hlexeme]
      rfl
    obtain ⟨w, hw, hsame⟩ := Source.toOption_readChars_of_exchanged hexchanged (by rw [hlexeme]; rfl) htemplate htext
      (readSchema_eq_ok.1 hread)
    rw [hvalue] at hsame
    exact ⟨_, v, w, hsame, hshaped, fun _ => readSchema_eq_ok.2 hw⟩

/-! ## Samples -/

def gainSource (id : Source) : Source := .object [
  (quotedToken "id", id),
  (quotedToken "name", quotedSource "gain"),
  (quotedToken "type", quotedSource "float")]

def meterSource (version id : Source) : Source := .object [
  (quotedToken "type", quotedSource "Meter"),
  (quotedToken "version", version),
  (quotedToken "inputs", .array []),
  (quotedToken "outputs", .array []),
  (quotedToken "registers", .array [gainSource id])]

theorem exchanged_meter_version (id x y : Source) :
    Source.Exchanged x y [.key "version"] (meterSource x id) (meterSource y id) := by
  have hversion := (Source.Exchanged.here (x := x) (y := y)).member [(quotedToken "type", quotedSource "Meter")]
    [(quotedToken "inputs", .array []), (quotedToken "outputs", .array []),
      (quotedToken "registers", .array [gainSource id])] (quotedToken "version") (by simp [key_quotedToken])
  rwa [key_quotedToken] at hversion

theorem exchanged_meter_id (version x y : Source) : Source.Exchanged x y [.key "registers", .index 0, .key "id"]
    (meterSource version x) (meterSource version y) := by
  have hid := (Source.Exchanged.here (x := x) (y := y)).member []
    [(quotedToken "name", quotedSource "gain"), (quotedToken "type", quotedSource "float")] (quotedToken "id")
    (by simp [key_quotedToken])
  have hregisters := (hid.item [] []).member [(quotedToken "type", quotedSource "Meter"),
    (quotedToken "version", version), (quotedToken "inputs", .array []), (quotedToken "outputs", .array [])] []
    (quotedToken "registers") nofun
  rwa [key_quotedToken, key_quotedToken] at hregisters

theorem layout_ofList (ts : List (List Char)) : Layout ts (String.ofList ts.flatten).toList := by
  rw [String.toList_ofList]
  exact layout_flatten ts

/-- The plain meter, with digits, is a schema of the service shape. -/
theorem fitsBut_meter {p : Pointer} {a b : ScalarToken} {t : Source} {text : String}
    (h : Source.Exchanged (.scalar a) (.scalar b) p (meterSource (digitSource 1) (digitSource 7)) t)
    (htext : Layout t.tokens text.toList) : FitsBut p b.chars text := by
  have hreads : ((readSchema "template" (String.ofList (meterSource (digitSource 1) (digitSource 7)).tokens.flatten)
      ).toOption.any fun v => (firstViolation v).isNone) = true := by decide +kernel
  obtain ⟨v, hv, hshaped⟩ := (Option.any_eq_true _ _).1 hreads
  exact .intro rfl h (layout_ofList _) (eq_ok_of_toOption hv)
    (firstViolation_eq_none.1 (Option.isNone_iff_eq_none.1 hshaped)) htext

/-! ## Ids -/

theorem id_of_resolve {c : Category} {i : Nat} {v : Value} {m : Number} {n : Nat} (hv : ServiceShaped v)
    (hm : Pointer.resolve [.key c.key, .index i, .key "id"] v = some (.number m)) (hn : m.Denotes n) :
    ∃ d e, Document.ofValue v = .ok d ∧ (d.entries c)[i]? = some e ∧ e.id.toNat = n := by
  obtain ⟨ms, d, rfl, hd, hfrom⟩ := Document.ofValue_of_shaped hv
  obtain ⟨list, hlist, hm⟩ := Option.bind_eq_some_iff.1 hm
  obtain ⟨entry, hentry, hm⟩ := Option.bind_eq_some_iff.1 hm
  obtain ⟨id, hid, hm⟩ := Option.bind_eq_some_iff.1 hm
  cases hm
  cases list with
  | array vs =>
    cases entry with
    | object members =>
      have hdenotes : IdDenotes (.object members) n := ⟨members, m, rfl, hid, hn⟩
      obtain ⟨id, hget, hid⟩ := (idDenotes_getElem? (hfrom.entries_of_array hlist) i n).1 ⟨_, hentry, hdenotes⟩
      rw [List.getElem?_map, Option.map_eq_some_iff] at hget
      obtain ⟨e, he, rfl⟩ := hget
      exact ⟨d, e, hd, he, hid⟩
    | _ => cases hid
  | _ => cases hentry

/-- Whatever spelling of a number of 16 bits is the id of an entry, the schema is read, has the shape of a service, and
gives the entry this id. -/
theorem id_spelled {text : String} {c : Category} {i : Nat} {t : NumberToken} {n : Nat}
    (htext : FitsBut [.key c.key, .index i, .key "id"] t.chars text) (hn : n ≤ 65535) (hexact : t.numeral.exact = n)
    (hexponent : ∀ e, t.numeral.exponent = some e → digitsValue 0 e.digits < 2 ^ 30) :
    ∃ v d e, (∀ origin, readSchema origin text = .ok v) ∧ firstViolation v = none ∧ Document.ofValue v = .ok d ∧
      (d.entries c)[i]? = some e ∧ e.id.toNat = n := by
  obtain ⟨m, hvalue, hm⟩ := Numeral.value_of_exact t.wellFormed hn hexact fun e he =>
    Nat.le_trans (hexponent e he).le (by decide)
  obtain ⟨x, v, w, hexchanged, hv, hread⟩ := exists_exchanged htext (NumberToken.lexemeOf_chars hvalue)
  have hw : ServiceShaped w :=
    (shaped_of_exchanged hexchanged hv (reaches_id c i)).2 (kept_integer.2 ⟨m, n, rfl, hn, hm⟩)
  obtain ⟨d, e, hd, he, hid⟩ := id_of_resolve hw hexchanged.resolve hm
  exact ⟨w, d, e, hread, firstViolation_eq_none.2 hw, hd, he, hid⟩

def scaledSeven : NumberToken where
  numeral := ⟨false, [0], some [0, 0, 0, 7, 0], some ⟨false, [4]⟩⟩
  wellFormed := by
    refine ⟨⟨0, [], rfl, fun _ => rfl, by simp⟩, ?_, ?_⟩ <;> rintro _ ⟨⟩ <;> simp
  capital := false
  plus := true

theorem id_spelled_seven : ∃ text, FitsBut [.key "registers", .index 0, .key "id"] "0.00070e+4".toList text ∧
    ∃ v d e, (∀ origin, readSchema origin text = .ok v) ∧ firstViolation v = none ∧ Document.ofValue v = .ok d ∧
      (d.entries .register)[0]? = some e ∧ e.id.toNat = 7 := by
  have hfits := fitsBut_meter (exchanged_meter_id _ _ (.scalar (.number scaledSeven))) (layout_ofList _)
  have hexact : scaledSeven.numeral.exact = (7 : Nat) := by
    have hdigits : scaledSeven.numeral.allDigits = 70 := rfl
    have hpower : scaledSeven.numeral.power = -1 := rfl
    rw [Numeral.exact, hdigits, hpower]
    norm_num [scaledSeven]
  refine ⟨_, hfits, id_spelled (c := .register) hfits (by decide) hexact ?_⟩
  rintro _ ⟨⟩
  decide

/-! ## Versions -/

theorem version_of_resolve {v : Value} {m : Number} {n : Nat} (hv : ServiceShaped v)
    (hm : Pointer.resolve [.key "version"] v = some (.number m)) (hn : m.Denotes n) :
    ∃ d, Document.ofValue v = .ok d ∧ d.version.toNat = n := by
  obtain ⟨ms, d, rfl, hd, hfrom⟩ := Document.ofValue_of_shaped hv
  obtain ⟨version, hversion, hm⟩ := Option.bind_eq_some_iff.1 hm
  cases hm
  obtain ⟨m', hm', hdenotes⟩ := hfrom.version
  cases hversion.symm.trans hm'
  exact ⟨d, hd, hdenotes.unique hn⟩

/-- A version of 32 bits with zeros behind its point is read. Unless it is misread, the schema has the shape of a
service and this version; if it is, the schema does not have the shape. -/
theorem version_with_zeros {text : String} {n k : Nat}
    (htext : FitsBut [.key "version"] (Numeral.zerosChars n k) text) (hn : n ≤ 4294967295) (hk : 1 ≤ k) :
    ∃ v, (∀ origin, readSchema origin text = .ok v) ∧ (firstViolation v = none ↔ ¬ Numeral.Misread n k) ∧
      (¬ Numeral.Misread n k → ∃ d, Document.ofValue v = .ok d ∧ d.version.toNat = n) := by
  obtain ⟨t, ht, hnegative, hdigits, hpower, hfraction, hexponent⟩ := Numeral.exists_zerosToken n hk
  obtain ⟨m, hvalue, hread, hmisread⟩ := Numeral.value_of_zeros t.wellFormed (by omega) hnegative hdigits hpower
    hfraction hexponent
  rw [← ht] at htext
  obtain ⟨x, v, w, hexchanged, hv, hreads⟩ := exists_exchanged htext (NumberToken.lexemeOf_chars hvalue)
  have hshaped : ServiceShaped w ↔ ¬ Numeral.Misread n k := by
    rw [shaped_of_exchanged hexchanged hv reaches_version, kept_integer]
    constructor
    · rintro ⟨_, j, ⟨⟩, hj, hm⟩ hbad
      have hintegral := (Number.denotes_within.2 ⟨j, hj, hm⟩).2.2
      rw [hmisread hbad] at hintegral
      cases hintegral
    · intro h
      exact ⟨m, n, rfl, hn, hread h⟩
  refine ⟨w, hreads, firstViolation_eq_none.trans hshaped, fun h => ?_⟩
  exact version_of_resolve (hshaped.2 h) hexchanged.resolve (hread h)

theorem version_with_zeros_largest :
    ∃ text, FitsBut [.key "version"] (Numeral.zerosChars 4294967295 30) text ∧ ∃ v d,
      (∀ origin, readSchema origin text = .ok v) ∧ firstViolation v = none ∧ Document.ofValue v = .ok d ∧
        d.version.toNat = 4294967295 := by
  obtain ⟨t, ht, -⟩ := Numeral.exists_zerosToken 4294967295 (show 1 ≤ 30 by decide)
  have hfits := fitsBut_meter (exchanged_meter_version _ _ (.scalar (.number t))) (layout_ofList _)
  rw [show (ScalarToken.number t).chars = _ from ht] at hfits
  obtain ⟨v, hreads, hshaped, hview⟩ := version_with_zeros hfits (by decide) (by decide)
  have hlarge : ¬ Numeral.Misread 4294967295 30 := fun h => absurd h.2.2.2 (by decide)
  obtain ⟨d, hd, hversion⟩ := hview hlarge
  exact ⟨_, hfits, v, d, hreads, hshaped.2 hlarge, hd, hversion⟩

/-- The version 1000000001 with ten zeros behind its point. -/
def misreadToken : NumberToken where
  numeral := ⟨false, [1, 0, 0, 0, 0, 0, 0, 0, 0, 1], some (List.replicate 10 0), none⟩
  wellFormed := by
    refine ⟨⟨1, _, rfl, by simp, by simp⟩, ?_, nofun⟩
    rintro _ ⟨⟩
    simp
  capital := false
  plus := false

def misreadText : String :=
  "\x7b\"type\":\"Meter\",\"version\":1000000001.0000000000,\"inputs\":[],\"outputs\":[],"
    ++ "\"registers\":[\x7b\"id\":7,\"name\":\"gain\",\"type\":\"float\"\x7d]\x7d"

/-- It does not have the shape of a service, for its version is read as the double before 1000000001. -/
theorem version_misread : FitsBut [.key "version"] (Numeral.zerosChars 1000000001 10) misreadText ∧
    ∃ v x, (∀ origin, readSchema origin misreadText = .ok v) ∧ firstViolation v = some x ∧
      x.location = "/version" ∧ x.message = "1000000000.9999999 is not of type \"integer\"" := by
  have htokens : misreadText.toList =
      (meterSource (.scalar (.number misreadToken)) (digitSource 7)).tokens.flatten := by decide +kernel
  have hfits : FitsBut [.key "version"] misreadToken.chars misreadText := by
    apply fitsBut_meter (exchanged_meter_version _ _ (.scalar (.number misreadToken)))
    rw [htokens]
    exact layout_flatten _
  have hchars : misreadToken.chars = Numeral.zerosChars 1000000001 10 := by decide +kernel
  have hreads : ((readSchema "schema" misreadText).toOption.any fun v => (firstViolation v).any fun x =>
      x.location = "/version" ∧ x.message = "1000000000.9999999 is not of type \"integer\"") = true := by
    decide +kernel
  obtain ⟨v, hv, hviolation⟩ := (Option.any_eq_true _ _).1 hreads
  obtain ⟨x, hx, hmessage⟩ := (Option.any_eq_true _ _).1 hviolation
  obtain ⟨hlocation, hmessage⟩ := of_decide_eq_true hmessage
  refine ⟨hchars ▸ hfits, v, x, fun origin => ?_, hx, hlocation, hmessage⟩
  exact readSchema_eq_ok.2 (readSchema_eq_ok.1 (eq_ok_of_toOption hv))

end ServiceSchema
