import ServiceSchema.Proofs.Profile
import ServiceSchema.Proofs.Service.Selection

/-! # Codecs told apart
Whether the function that a field calls, or the header it needs, tells what the field does with it: decode or encode,
and which type. Within one direction both always tell the type. Between the directions they do if no name of the one
can be read as a name of the other; that its profile is sound leaves this open. -/
namespace ServiceSchema
open ServiceSchema.Json

/-! ## Names of one profile -/

def Codec.decodes (codec : Codec) : Bool :=
  match codec.role with
  | .decode _ => true
  | .encode _ => false

def ContinuesCIdentifier (r : String) : Prop := ∀ c ∈ r.toList, StartsCIdentifier c ∨ ('0' ≤ c ∧ c ≤ '9')

namespace Profile

variable {p : Profile} {decodes : Bool} {a b : String}

def entryPoint (p : Profile) (decodes : Bool) (type : String) : String :=
  (if decodes then p.decodeEntryPrefix else p.encodeEntryPrefix) ++ type

def header (p : Profile) (decodes : Bool) (type : String) : String :=
  "\"" ++ type ++ (if decodes then p.decodeIncludeSuffix else p.encodeIncludeSuffix) ++ "\""

theorem entryPoint_inj : p.entryPoint decodes a = p.entryPoint decodes b ↔ a = b := by
  rw [entryPoint, entryPoint, String.append_right_inj]

theorem header_inj : p.header decodes a = p.header decodes b ↔ a = b := by
  rw [header, header, String.append_left_inj, String.append_left_inj, String.append_right_inj]

theorem entryPoint_cross : p.entryPoint true a = p.entryPoint false b ↔
    p.decodeEntryPrefix ++ a = p.encodeEntryPrefix ++ b := Iff.rfl

theorem header_cross : p.header true a = p.header false b ↔
    a ++ p.decodeIncludeSuffix = b ++ p.encodeIncludeSuffix := by
  rw [header, header, String.append_left_inj, String.append_assoc, String.append_assoc, String.append_right_inj]
  rfl

/-- Neither prefix is the other one with the beginning of a type after it. -/
def PrefixesApart (p : Profile) : Prop := ∀ r, r = "" ∨ CIdentifier r →
  p.decodeEntryPrefix ≠ p.encodeEntryPrefix ++ r ∧ p.encodeEntryPrefix ≠ p.decodeEntryPrefix ++ r

/-- Neither suffix is the other one with the end of a type before it. -/
def SuffixesApart (p : Profile) : Prop := ∀ r, ContinuesCIdentifier r →
  p.decodeIncludeSuffix ≠ r ++ p.encodeIncludeSuffix ∧ p.encodeIncludeSuffix ≠ r ++ p.decodeIncludeSuffix

end Profile

/-! ## Types with a piece before or after them -/

namespace CIdentifier

variable {r s : String}

theorem of_append (h : CIdentifier (r ++ s)) : r = "" ∨ CIdentifier r := by
  obtain ⟨c, cs, heq, hc, hcs⟩ := h
  rw [String.toList_append] at heq
  rcases List.append_eq_cons_iff.1 heq with ⟨hr, -⟩ | ⟨cs', hr, rfl⟩
  · exact .inl (String.toList_eq_nil_iff.1 hr)
  · exact .inr ⟨c, cs', hr, hc, fun d hd => hcs d (List.mem_append_left _ hd)⟩

theorem append (hs : CIdentifier s) (hr : ContinuesCIdentifier r) : CIdentifier (s ++ r) := by
  obtain ⟨c, cs, heq, hc, hcs⟩ := hs
  refine ⟨c, cs ++ r.toList, by rw [String.toList_append, heq, List.cons_append], hc, fun d hd => ?_⟩
  exact (List.mem_append.1 hd).elim (hcs d) (hr d)

theorem continues (hs : CIdentifier s) : ContinuesCIdentifier s := by
  obtain ⟨c, cs, heq, hc, hcs⟩ := hs
  rw [ContinuesCIdentifier, heq]
  exact List.forall_mem_cons.2 ⟨.inl hc, hcs⟩

theorem continues_right (h : CIdentifier (s ++ r)) : ContinuesCIdentifier r :=
  fun c hc => h.continues c (String.toList_append ▸ List.mem_append_right _ hc)

end CIdentifier

theorem append_eq_append_iff {s t u v : String} :
    s ++ t = u ++ v ↔ (∃ r, u = s ++ r ∧ t = r ++ v) ∨ ∃ r, s = u ++ r ∧ v = r ++ t := by
  have hpieces (P : List Char → Prop) : (∃ cs, P cs) ↔ ∃ r : String, P r.toList :=
    ⟨fun ⟨cs, h⟩ => ⟨.ofList cs, String.toList_ofList.symm ▸ h⟩, fun ⟨r, h⟩ => ⟨_, h⟩⟩
  simp only [← String.toList_inj, String.toList_append, List.append_eq_append_iff, hpieces]

theorem cIdentifier_pet : CIdentifier "Pet" := isCIdentifier_iff.1 (by decide)

/-- The prefixes are apart if no type of the one direction makes an entry point with a type of the other. -/
theorem prefixesApart_iff {p : Profile} : p.PrefixesApart ↔
    ∀ a b, CIdentifier a → CIdentifier b → p.entryPoint true a ≠ p.entryPoint false b := by
  have hextend {r : String} (hr : r = "" ∨ CIdentifier r) : CIdentifier (r ++ "Pet") := by
    rcases hr with rfl | hr
    · exact cIdentifier_pet
    · exact hr.append cIdentifier_pet.continues
  simp only [ne_eq, Profile.entryPoint_cross]
  constructor
  · intro h a b ha hb heq
    rcases append_eq_append_iff.1 heq with ⟨r, hr, rfl⟩ | ⟨r, hr, rfl⟩
    · exact (h r ha.of_append).2 hr
    · exact (h r hb.of_append).1 hr
  · refine fun h r hr => ⟨fun heq => h "Pet" (r ++ "Pet") cIdentifier_pet (hextend hr) ?_,
      fun heq => h (r ++ "Pet") "Pet" (hextend hr) cIdentifier_pet ?_⟩
    · rw [heq, String.append_assoc]
    · rw [heq, String.append_assoc]

theorem suffixesApart_iff {p : Profile} : p.SuffixesApart ↔
    ∀ a b, CIdentifier a → CIdentifier b → p.header true a ≠ p.header false b := by
  simp only [ne_eq, Profile.header_cross]
  constructor
  · intro h a b ha hb heq
    rcases append_eq_append_iff.1 heq with ⟨r, rfl, hr⟩ | ⟨r, rfl, hr⟩
    · exact (h r hb.continues_right).1 hr
    · exact (h r ha.continues_right).2 hr
  · refine fun h r hr => ⟨fun heq => h "Pet" ("Pet" ++ r) cIdentifier_pet (cIdentifier_pet.append hr) ?_,
      fun heq => h ("Pet" ++ r) "Pet" (cIdentifier_pet.append hr) cIdentifier_pet ?_⟩
    · rw [heq, String.append_assoc]
    · rw [heq, String.append_assoc]

theorem ne_append_of_length_eq {s t : String} (hlength : s.length = t.length) (h : s ≠ t) (r : String) :
    s ≠ t ++ r ∧ s ≠ r ++ t := by
  have hempty (hsum : s.length = t.length + r.length) : r = "" := String.length_eq_zero_iff.1 (by omega)
  constructor
  · rintro rfl
    exact h (by rw [hempty (String.length_append ..), String.append_empty])
  · rintro rfl
    exact h (by rw [hempty (by rw [String.length_append, Nat.add_comm]), String.empty_append])

/-- Different prefixes of one length are apart, and so are suffixes. -/
theorem apart_of_length_eq {p : Profile} (hentryLength : p.decodeEntryPrefix.length = p.encodeEntryPrefix.length)
    (hprefixes : p.decodeEntryPrefix ≠ p.encodeEntryPrefix)
    (hheaderLength : p.decodeIncludeSuffix.length = p.encodeIncludeSuffix.length)
    (hsuffixes : p.decodeIncludeSuffix ≠ p.encodeIncludeSuffix) : p.PrefixesApart ∧ p.SuffixesApart := by
  refine ⟨fun r _ => ⟨?_, ?_⟩, fun r _ => ⟨?_, ?_⟩⟩
  · exact (ne_append_of_length_eq hentryLength hprefixes r).1
  · exact (ne_append_of_length_eq hentryLength.symm hprefixes.symm r).1
  · exact (ne_append_of_length_eq hheaderLength hsuffixes r).2
  · exact (ne_append_of_length_eq hheaderLength.symm hsuffixes.symm r).2

/-! ## Calls of a service -/

def Service.Calls (s : Service) (c : Category) (codec : Codec) : Prop := ∃ f ∈ s.fields c, f.kind = .compiled codec

structure Codec.Follows (p : Profile) (c : Category) (codec : Codec) : Prop where
  type : CIdentifier codec.type
  direction : (codec.decodes = true ∧ c = .input) ∨ (codec.decodes = false ∧ c = .output)
  entryPoint : codec.entryPoint = p.entryPoint codec.decodes codec.type
  header : codec.header = p.header codec.decodes codec.type

theorem follows_of_codecFor {p : Profile} {c : Category} {id : UInt16} {callback type : String} {codec : Codec}
    (h : FieldKind.codecFor p c id callback type = some codec) (htype : CIdentifier type) : codec.Follows p c := by
  cases c with
  | input =>
    cases h
    exact ⟨htype, .inl ⟨rfl, rfl⟩, rfl, rfl⟩
  | output =>
    cases h
    exact ⟨htype, .inr ⟨rfl, rfl⟩, rfl, rfl⟩
  | register => cases h

theorem exists_kind_iff {p : Profile} {c : Category} {es : List Entry} {fs : List Field}
    (h : List.Forall₂ (Field.Compiles p c) es fs) {k : FieldKind} :
    (∃ f ∈ fs, f.kind = k) ↔ ∃ e ∈ es, e.selection p c = .ok k := by
  induction h with
  | nil => simp
  | cons hf _ ih =>
    obtain ⟨k', hk', rfl⟩ := hf
    rw [List.exists_mem_cons_iff, List.exists_mem_cons_iff, ih, hk', Except.ok.injEq]
    rfl

theorem Codec.Follows.input {p : Profile} {codec : Codec} (h : codec.Follows p .input) : codec.decodes = true := by
  simpa using h.direction

theorem Codec.Follows.output {p : Profile} {codec : Codec} (h : codec.Follows p .output) : codec.decodes = false := by
  simpa using h.direction

theorem calls_iff {p : Profile} {value : Value} {d : Document} {s : Service}
    (h : (assembleService p value d).result = .ok s) {c : Category} {codec : Codec} :
    s.Calls c codec ↔ ∃ e ∈ d.entries c, e.selection p c = .ok (.compiled codec) :=
  exists_kind_iff ((assembleService_eq_ok.1 h).1 c)

theorem follows_of_calls {p : Profile} {value : Value} {s : Service} (h : (compile p value).result = .ok s)
    {c : Category} {codec : Codec} (hcalls : s.Calls c codec) : codec.Follows p c := by
  obtain ⟨ms, d, -, -, -, hs⟩ := compile_eq_ok h
  obtain ⟨e, -, he⟩ := (calls_iff hs).1 hcalls
  rcases FieldKind.select_cases he with ⟨t, -, ht⟩ | ⟨codec', htype, hcodec, heq⟩
  · cases t <;> cases ht
  · cases heq
    exact follows_of_codecFor hcodec htype

/-! ## A type decoded and a type encoded -/

/-- One input and one output, each under the directive. -/
def pairSchema (directive a b : String) : Value := .object [
  ("inputs", .array [.object [("encoding", .string directive), ("id", .number (.ofWord 0)), ("name", .string "in"),
    ("type", .string a)]]),
  ("outputs", .array [.object [("encoding", .string directive), ("id", .number (.ofWord 0)), ("name", .string "out"),
    ("type", .string b)]]),
  ("type", .string "Pair"),
  ("version", .number (.ofWord 1))]

def pairDocument (directive a b : String) : Document where
  serviceType := "Pair"
  version := 1
  inputs := [⟨0, "in", a, some directive, none⟩]
  outputs := [⟨0, "out", b, some directive, none⟩]
  registers := []

theorem readFrom_pair (directive a b : String) : ∃ ms, pairSchema directive a b = .object ms ∧
    Document.ReadFrom ms (pairDocument directive a b) := by
  refine ⟨_, rfl, rfl, ⟨_, rfl, rfl⟩, fun c => ?_⟩
  cases c with
  | input => exact .inl ⟨_, rfl, .cons ⟨_, rfl, ⟨_, rfl, rfl⟩, rfl, rfl, rfl, rfl⟩ .nil⟩
  | output => exact .inl ⟨_, rfl, .cons ⟨_, rfl, ⟨_, rfl, rfl⟩, rfl, rfl, rfl, rfl⟩ .nil⟩
  | register => exact .inr ⟨rfl, .inl rfl, rfl⟩

theorem exists_pair {p : Profile} (h : p.flaw? = none) {a b : String} (ha : CIdentifier a) (hb : CIdentifier b) :
    ∃ s codec codec', (compile p (pairSchema p.compiledEncoding a b)).result = .ok s ∧ s.Calls .input codec ∧
      s.Calls .output codec' ∧ codec.type = a ∧ codec'.type = b := by
  obtain ⟨-, -, hdirectives, -⟩ := Profile.flaw?_eq_none.1 h
  obtain ⟨ms, hms, hfrom⟩ := readFrom_pair p.compiledEncoding a b
  have hinput : ∃ codec, Entry.selection p .input ⟨0, "in", a, some p.compiledEncoding, none⟩ = .ok (.compiled codec) ∧
      codec.type = a := ⟨_, select_of_codecFor ⟨rfl, hdirectives.symm⟩ ha rfl, rfl⟩
  have houtput : ∃ codec, Entry.selection p .output ⟨0, "out", b, some p.compiledEncoding, none⟩ =
      .ok (.compiled codec) ∧ codec.type = b := ⟨_, select_of_codecFor ⟨rfl, hdirectives.symm⟩ hb rfl, rfl⟩
  obtain ⟨codec, hcodec, htype⟩ := hinput
  obtain ⟨codec', hcodec', htype'⟩ := houtput
  have hcompiles : ∃ s, (compile p (.object ms)).result = .ok s := by
    refine (exists_compile_of_readFrom hfrom).2 ⟨fun c => ?_, fun c e he => ?_⟩
    · cases c <;> simp [Document.ids, Document.entries, pairDocument]
    · cases c with
      | input =>
        cases List.mem_singleton.1 he
        exact ⟨_, hcodec⟩
      | output =>
        cases List.mem_singleton.1 he
        exact ⟨_, hcodec'⟩
      | register => cases he
  obtain ⟨s, hs⟩ := hcompiles
  have hassembled := ((compile_eq_ok_of_readFrom hfrom).1 hs).2
  exact ⟨s, codec, codec', hms ▸ hs, (calls_iff hassembled).2 ⟨_, List.mem_singleton_self _, hcodec⟩,
    (calls_iff hassembled).2 ⟨_, List.mem_singleton_self _, hcodec'⟩, htype, htype'⟩

/-! ## What a name tells -/

/-- Of any two calls of a service that have the same name, direction and type are the same. -/
def Profile.Tells (p : Profile) (name : Codec → String) : Prop :=
  ∀ value s, (compile p value).result = .ok s → ∀ c codec c' codec', s.Calls c codec → s.Calls c' codec' →
    name codec = name codec' → codec.decodes = codec'.decodes ∧ codec.type = codec'.type

theorem tells_iff {p : Profile} (h : p.flaw? = none) {name : Codec → String} {render : Bool → String → String}
    (hname : ∀ c codec, codec.Follows p c → name codec = render codec.decodes codec.type)
    (hinj : ∀ decodes a b, render decodes a = render decodes b ↔ a = b) :
    p.Tells name ↔ ∀ a b, CIdentifier a → CIdentifier b → render true a ≠ render false b := by
  constructor
  · intro htells a b ha hb heq
    obtain ⟨s, codec, codec', hs, hin, hout, rfl, rfl⟩ := exists_pair h ha hb
    have hfollows := follows_of_calls hs hin
    have hfollows' := follows_of_calls hs hout
    rw [← hfollows.input, ← hfollows'.output, ← hname _ _ hfollows, ← hname _ _ hfollows'] at heq
    have hsame := (htells _ s hs _ codec _ codec' hin hout heq).1
    rw [hfollows.input, hfollows'.output] at hsame
    cases hsame
  · intro hapart value s hs c codec c' codec' hcalls hcalls' heq
    have hfollows := follows_of_calls hs hcalls
    have hfollows' := follows_of_calls hs hcalls'
    rw [hname _ _ hfollows, hname _ _ hfollows'] at heq
    -- Calls in one direction have one rendering; no rendering of a decoder is one of an encoder.
    cases hdirection : codec.decodes <;> cases hdirection' : codec'.decodes <;>
      rw [hdirection, hdirection'] at heq
    · exact ⟨rfl, (hinj _ _ _).1 heq⟩
    · exact absurd heq.symm (hapart _ _ hfollows'.type hfollows.type)
    · exact absurd heq (hapart _ _ hfollows.type hfollows'.type)
    · exact ⟨rfl, (hinj _ _ _).1 heq⟩

theorem names_within_direction {p : Profile} {c c' : Category} {codec codec' : Codec} (h : codec.Follows p c)
    (h' : codec'.Follows p c') (hdirection : codec.decodes = codec'.decodes) :
    (codec.entryPoint = codec'.entryPoint ↔ codec.type = codec'.type) ∧
      (codec.header = codec'.header ↔ codec.type = codec'.type) := by
  rw [h.entryPoint, h'.entryPoint, h.header, h'.header, hdirection]
  exact ⟨Profile.entryPoint_inj, Profile.header_inj⟩

theorem names_across_directions {p : Profile} {codec codec' : Codec} (h : codec.Follows p .input)
    (h' : codec'.Follows p .output) (htype : codec.type = codec'.type) :
    (codec.entryPoint = codec'.entryPoint ↔ p.decodeEntryPrefix = p.encodeEntryPrefix) ∧
      (codec.header = codec'.header ↔ p.decodeIncludeSuffix = p.encodeIncludeSuffix) := by
  rw [h.entryPoint, h'.entryPoint, h.header, h'.header, h.input, h'.output, htype, Profile.entryPoint_cross,
    Profile.header_cross, String.append_left_inj, String.append_right_inj]
  exact ⟨Iff.rfl, Iff.rfl⟩

/-- What the names of calls tell under a sound profile. Within one direction they tell the type. Headers also tell the
direction if the types are the same. Otherwise it is for the prefixes, and for the suffixes, to be apart. -/
theorem codecs_told_apart (p : Profile) (h : p.flaw? = none) :
    (∀ value s, (compile p value).result = .ok s → ∀ c codec c' codec', s.Calls c codec → s.Calls c' codec' →
      (codec.decodes = codec'.decodes → (codec.entryPoint = codec'.entryPoint ↔ codec.type = codec'.type) ∧
        (codec.header = codec'.header ↔ codec.type = codec'.type)) ∧
      (c = .input → c' = .output → codec.type = codec'.type → codec.header ≠ codec'.header ∧
        (codec.entryPoint = codec'.entryPoint ↔ p.decodeEntryPrefix = p.encodeEntryPrefix))) ∧
    (p.Tells Codec.entryPoint ↔ p.PrefixesApart) ∧ (p.Tells Codec.header ↔ p.SuffixesApart) := by
  refine ⟨fun value s hs c codec c' codec' hcalls hcalls' => ?_, ?_, ?_⟩
  · have hfollows := follows_of_calls hs hcalls
    have hfollows' := follows_of_calls hs hcalls'
    refine ⟨names_within_direction hfollows hfollows', ?_⟩
    rintro rfl rfl htype
    obtain ⟨hentry, hheader⟩ := names_across_directions hfollows hfollows' htype
    obtain ⟨-, -, -, -, -, hsuffixes⟩ := Profile.flaw?_eq_none.1 h
    exact ⟨mt hheader.1 hsuffixes, hentry⟩
  · rw [prefixesApart_iff]
    exact tells_iff h (fun _ _ hfollows => hfollows.entryPoint) fun _ _ _ => Profile.entryPoint_inj
  · rw [suffixesApart_iff]
    exact tells_iff h (fun _ _ hfollows => hfollows.header) fun _ _ _ => Profile.header_inj

theorem codecs_told_apart_standard : Profile.standard.flaw? = none ∧ Profile.standard.Tells Codec.entryPoint ∧
    Profile.standard.Tells Codec.header ∧ ∃ s codec codec',
      (compile .standard (pairSchema "zcbor" "Pet" "Pet")).result = .ok s ∧ s.Calls .input codec ∧
      s.Calls .output codec' ∧ codec.type = codec'.type ∧ codec.entryPoint ≠ codec'.entryPoint ∧
      codec.header ≠ codec'.header := by
  have hsound : Profile.standard.flaw? = none := by decide
  obtain ⟨hprefixes, hsuffixes⟩ : Profile.standard.PrefixesApart ∧ Profile.standard.SuffixesApart :=
    apart_of_length_eq (by decide) (by decide) (by decide) (by decide)
  obtain ⟨hcalls, hentry, hheader⟩ := codecs_told_apart .standard hsound
  obtain ⟨s, codec, codec', hs, hin, hout, htype, htype'⟩ := exists_pair hsound cIdentifier_pet cIdentifier_pet
  have hsame : codec.type = codec'.type := htype.trans htype'.symm
  obtain ⟨hheaders, hentries⟩ := (hcalls _ s hs _ codec _ codec' hin hout).2 rfl rfl hsame
  exact ⟨hsound, hentry.2 hprefixes, hheader.2 hsuffixes, s, codec, codec', hs, hin, hout, hsame,
    mt hentries.1 (by decide), hheaders⟩

/-- The standard names, but encoders with the prefix of decoders. -/
def onePrefix : Profile := { Profile.standard with encodeEntryPrefix := "cbor_decode_" }

/-- That a profile is sound is not enough for its entry points to tell the direction. -/
theorem codecs_confused : Profile.read "encode_entry_prefix: cbor_decode_\n" = .ok onePrefix ∧
    onePrefix.flaw? = none ∧ ∃ s, (compile onePrefix (pairSchema "zcbor" "Pet" "Pet")).result = .ok s ∧
      ¬ ∀ c codec c' codec', s.Calls c codec → s.Calls c' codec' → codec.entryPoint = codec'.entryPoint →
        codec.decodes = codec'.decodes ∧ codec.type = codec'.type := by
  have hsound : onePrefix.flaw? = none := by decide
  obtain ⟨s, codec, codec', hs, hin, hout, htype, htype'⟩ := exists_pair hsound cIdentifier_pet cIdentifier_pet
  have hfollows := follows_of_calls hs hin
  have hfollows' := follows_of_calls hs hout
  have hentry := (names_across_directions hfollows hfollows' (htype.trans htype'.symm)).1.2 rfl
  refine ⟨eq_ok_of_toOption (by decide +kernel), hsound, s, hs, fun htold => ?_⟩
  have hdirection := (htold _ codec _ codec' hin hout hentry).1
  rw [hfollows.input, hfollows'.output] at hdirection
  cases hdirection

end ServiceSchema
