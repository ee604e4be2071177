import ServiceSchema.Proofs.Service

/-! # Selected kinds and the headers they need
What comes of the directive, the declared type and the category of an entry, and which fault is reported if there are
several. Only a compiled kind needs a header, and an entry at fault leaves the headers as they are. -/
namespace ServiceSchema
open ServiceSchema.Json

variable {p : Profile} {c : Category} {index : Nat} {e : Entry} {callback : String} {i i' : Includes}
  {result : Except CompileError FieldKind}

/-! ## One entry -/

def Entry.AsksRaw (p : Profile) (e : Entry) : Prop := e.encoding = none ∨ e.encoding = some p.rawEncoding

/-- Where one directive stands for both encodings, it asks for the raw one. -/
def Entry.AsksCompiled (p : Profile) (e : Entry) : Prop :=
  e.encoding = some p.compiledEncoding ∧ p.compiledEncoding ≠ p.rawEncoding

/-- What becomes of an entry and of the headers `i`: its kind or its fault, and the headers after it. -/
inductive Entry.Selects (p : Profile) (c : Category) (index : Nat) (e : Entry) (callback : String) (i : Includes) :
    Except CompileError FieldKind → Includes → Prop where
  | unknownDirective {d : String} (directive : e.encoding = some d) (notRaw : d ≠ p.rawEncoding)
      (notCompiled : d ≠ p.compiledEncoding) : Selects p c index e callback i
        (.error (.illegalEncoding ⟨c, index, e.name⟩ (some d) (.unknownDirective p.rawEncoding p.compiledEncoding))) i
  | scalar {t : Scalar} (asks : e.AsksRaw p) (type : DeclaredType.resolve e.declaredType = .ok (.scalar t)) :
      Selects p c index e callback i (.ok (.scalar t)) i
  | array {t : Scalar} {n : UInt32} (asks : e.AsksRaw p)
      (type : DeclaredType.resolve e.declaredType = .ok (.array t n)) :
      Selects p c index e callback i (.ok (.array t n)) i
  | illegalType {reason : TypeError} (asks : e.AsksRaw p)
      (type : DeclaredType.resolve e.declaredType = .error reason) :
      Selects p c index e callback i (.error (.illegalType ⟨c, index, e.name⟩ e.declaredType reason)) i
  | compiledArray (asks : e.AsksCompiled p) (bracket : '[' ∈ e.declaredType.toList) :
      Selects p c index e callback i (.error (.illegalEncoding ⟨c, index, e.name⟩ e.encoding .compiledArray)) i
  | compiledType (asks : e.AsksCompiled p) (noBracket : '[' ∉ e.declaredType.toList)
      (type : ¬ CIdentifier e.declaredType) : Selects p c index e callback i
        (.error (.illegalType ⟨c, index, e.name⟩ e.declaredType (.invalidCodecType e.declaredType))) i
  | compiledRegister (asks : e.AsksCompiled p) (type : CIdentifier e.declaredType) (category : c = .register) :
      Selects p c index e callback i (.error (.illegalEncoding ⟨c, index, e.name⟩ e.encoding .compiledRegister)) i
  | decoded {header : String} {i' : Includes} (asks : e.AsksCompiled p) (type : CIdentifier e.declaredType)
      (category : c = .input) (operand : header = "\"" ++ e.declaredType ++ p.decodeIncludeSuffix ++ "\"")
      (headers : ∀ h, h ∈ i' ↔ h = header ∨ h ∈ i) : Selects p c index e callback i
        (.ok (.compiled ⟨e.declaredType, p.decodeEntryPrefix ++ e.declaredType, header, .decode callback⟩)) i'
  | encoded {header : String} {i' : Includes} (asks : e.AsksCompiled p) (type : CIdentifier e.declaredType)
      (category : c = .output) (operand : header = "\"" ++ e.declaredType ++ p.encodeIncludeSuffix ++ "\"")
      (headers : ∀ h, h ∈ i' ↔ h = header ∨ h ∈ i) : Selects p c index e callback i
        (.ok (.compiled ⟨e.declaredType, p.encodeEntryPrefix ++ e.declaredType, header, .encode e.id⟩)) i'

theorem Entry.asks_cases (p : Profile) (e : Entry) : e.AsksRaw p ∨ e.AsksCompiled p ∨
    ∃ d, e.encoding = some d ∧ d ≠ p.rawEncoding ∧ d ≠ p.compiledEncoding := by
  cases hencoding : e.encoding with
  | none => exact .inl (.inl hencoding)
  | some d =>
    by_cases hraw : d = p.rawEncoding
    · exact .inl (.inr (hraw ▸ hencoding))
    · by_cases hcompiled : d = p.compiledEncoding
      · exact .inr (.inl ⟨hcompiled ▸ hencoding, hcompiled ▸ hraw⟩)
      · exact .inr (.inr ⟨d, rfl, hraw, hcompiled⟩)

theorem select_raw (h : e.AsksRaw p) : FieldKind.select p c e callback = FieldKind.selectRaw e := by
  have hraw : Encoding.ofDirective p e.encoding = .ok .raw := by
    rcases h with h | h <;> simp [Encoding.ofDirective, h]
  rw [FieldKind.select, hraw]

theorem select_compiled (h : e.AsksCompiled p) :
    FieldKind.select p c e callback = FieldKind.selectCompiled p c e callback := by
  have hcompiled : Encoding.ofDirective p e.encoding = .ok .compiled := by
    simp [Encoding.ofDirective, h.1, h.2]
  rw [FieldKind.select, hcompiled]

theorem select_unknown {d : String} (h : e.encoding = some d) (hraw : d ≠ p.rawEncoding)
    (hcompiled : d ≠ p.compiledEncoding) : FieldKind.select p c e callback
      = .error (.encoding (.unknownDirective p.rawEncoding p.compiledEncoding)) := by
  simp [FieldKind.select, Encoding.ofDirective, h, hraw, hcompiled]

theorem CIdentifier.no_bracket {s : String} (h : CIdentifier s) : '[' ∉ s.toList := by
  obtain ⟨d, ds, hs, hd, hds⟩ := h
  have hbracket : ¬ StartsCIdentifier '[' := by rw [StartsCIdentifier]; decide
  rw [hs, List.mem_cons, not_or]
  refine ⟨fun heq => hbracket (heq ▸ hd), fun hmem => ?_⟩
  rcases hds _ hmem with hstart | hdigit
  · exact hbracket hstart
  · exact absurd hdigit (by decide)

theorem checkCodecType_of_identifier {s : String} (h : CIdentifier s) : checkCodecType s = .ok s := by
  rw [checkCodecType, if_pos (isCIdentifier_iff.2 h)]

theorem checkCodecType_of_not_identifier {s : String} (h : ¬ CIdentifier s) :
    checkCodecType s = .error (.invalidCodecType s) := by
  rw [checkCodecType, if_neg (mt isCIdentifier_iff.1 h)]

theorem selectCompiled_of_bracket (h : '[' ∈ e.declaredType.toList) :
    FieldKind.selectCompiled p c e callback = .error (.encoding .compiledArray) := by
  rw [FieldKind.selectCompiled, if_pos (List.contains_iff_mem.2 h)]

theorem selectCompiled_of_no_bracket (h : '[' ∉ e.declaredType.toList) :
    FieldKind.selectCompiled p c e callback = match checkCodecType e.declaredType with
      | .error error => .error (.type error)
      | .ok type =>
        match FieldKind.codecFor p c e.id callback type with
        | some codec => .ok (.compiled codec)
        | none => .error (.encoding .compiledRegister) :=
  if_neg (mt List.contains_iff_mem.1 h)

theorem selectCompiled_of_not_identifier (hbracket : '[' ∉ e.declaredType.toList) (h : ¬ CIdentifier e.declaredType) :
    FieldKind.selectCompiled p c e callback = .error (.type (.invalidCodecType e.declaredType)) := by
  rw [selectCompiled_of_no_bracket hbracket, checkCodecType_of_not_identifier h]

theorem selectCompiled_of_identifier (h : CIdentifier e.declaredType) : FieldKind.selectCompiled p c e callback
    = match FieldKind.codecFor p c e.id callback e.declaredType with
      | some codec => .ok (.compiled codec)
      | none => .error (.encoding .compiledRegister) := by
  rw [selectCompiled_of_no_bracket h.no_bracket, checkCodecType_of_identifier h]

theorem selectInto_of_ok {k : FieldKind} (h : FieldKind.select p c e callback = .ok k) :
    e.selectInto p c index callback i = (.ok k, i.addKind k) := by
  rw [Entry.selectInto, h]

theorem selectInto_of_error {fault : FieldKind.Fault} (h : FieldKind.select p c e callback = .error fault) :
    e.selectInto p c index callback i = (.error (.ofEntry c index e fault), i) := by
  rw [Entry.selectInto, h]

theorem mem_addKind_compiled (i : Includes) (codec : Codec) (header : String) :
    header ∈ i.addKind (.compiled codec) ↔ header = codec.header ∨ header ∈ i := by
  rw [Includes.mem_addKind]
  simp [eq_comm]

/-- An entry is judged by the first rule that it breaks, and there is a rule for every entry. -/
theorem selects_selectInto (p : Profile) (c : Category) (index : Nat) (e : Entry) (callback : String) (i : Includes) :
    e.Selects p c index callback i (e.selectInto p c index callback i).1 (e.selectInto p c index callback i).2 := by
  rcases e.asks_cases p with hasks | hasks | ⟨d, hd, hraw, hcompiled⟩
  · have hselect : FieldKind.select p c e callback = FieldKind.selectRaw e := select_raw hasks
    rw [FieldKind.selectRaw] at hselect
    cases hresolve : DeclaredType.resolve e.declaredType with
    | error reason =>
      rw [hresolve] at hselect
      rw [selectInto_of_error hselect]
      exact .illegalType hasks hresolve
    | ok t =>
      rw [hresolve] at hselect
      rw [selectInto_of_ok hselect]
      cases t with
      | scalar t => exact .scalar hasks hresolve
      | array t n => exact .array hasks hresolve
  · have hselect : FieldKind.select p c e callback = FieldKind.selectCompiled p c e callback := select_compiled hasks
    by_cases hbracket : '[' ∈ e.declaredType.toList
    · rw [selectInto_of_error (hselect.trans (selectCompiled_of_bracket hbracket))]
      exact .compiledArray hasks hbracket
    · by_cases htype : CIdentifier e.declaredType
      · rw [selectCompiled_of_identifier htype] at hselect
        cases hc : c with
        | input =>
          rw [hc] at hselect
          rw [selectInto_of_ok hselect]
          exact .decoded hasks htype rfl rfl (mem_addKind_compiled i _)
        | output =>
          rw [hc] at hselect
          rw [selectInto_of_ok hselect]
          exact .encoded hasks htype rfl rfl (mem_addKind_compiled i _)
        | register =>
          rw [hc] at hselect
          rw [selectInto_of_error hselect]
          exact .compiledRegister hasks htype rfl
      · rw [selectInto_of_error (hselect.trans (selectCompiled_of_not_identifier hbracket htype))]
        exact .compiledType hasks hbracket htype
  · rw [selectInto_of_error (select_unknown hd hraw hcompiled), CompileError.ofEntry, hd]
    exact .unknownDirective hd hraw hcompiled

theorem select_of_codecFor {codec : Codec} (hasks : e.AsksCompiled p) (htype : CIdentifier e.declaredType)
    (hcodec : FieldKind.codecFor p c e.id callback e.declaredType = some codec) :
    FieldKind.select p c e callback = .ok (.compiled codec) := by
  rw [select_compiled hasks, selectCompiled_of_identifier htype, hcodec]

theorem selectInto_of_compiled {codec : Codec} (hasks : e.AsksCompiled p) (htype : CIdentifier e.declaredType)
    (hcodec : FieldKind.codecFor p c e.id callback e.declaredType = some codec)
    (hheaders : ∀ h, h ∈ i' ↔ h = codec.header ∨ h ∈ i) :
    e.selectInto p c index callback i = (.ok (.compiled codec), i') := by
  have hsame : i.addKind (.compiled codec) = i' :=
    Includes.eq_of_mem_iff fun h => by rw [mem_addKind_compiled, hheaders]
  rw [selectInto_of_ok (select_of_codecFor hasks htype hcodec), hsame]

theorem selectInto_of_selects (h : e.Selects p c index callback i result i') :
    e.selectInto p c index callback i = (result, i') := by
  cases h with
  | unknownDirective directive notRaw notCompiled =>
    rw [selectInto_of_error (select_unknown directive notRaw notCompiled), CompileError.ofEntry, directive]
    rfl
  | @scalar t asks type =>
    have hraw : FieldKind.selectRaw e = .ok (.scalar t) := by rw [FieldKind.selectRaw, type]; rfl
    exact selectInto_of_ok ((select_raw asks).trans hraw)
  | @array t n asks type =>
    have hraw : FieldKind.selectRaw e = .ok (.array t n) := by rw [FieldKind.selectRaw, type]; rfl
    exact selectInto_of_ok ((select_raw asks).trans hraw)
  | @illegalType reason asks type =>
    have hraw : FieldKind.selectRaw e = .error (.type reason) := by rw [FieldKind.selectRaw, type]
    exact selectInto_of_error ((select_raw asks).trans hraw)
  | compiledArray asks bracket =>
    exact selectInto_of_error ((select_compiled asks).trans (selectCompiled_of_bracket bracket))
  | compiledType asks noBracket type =>
    exact selectInto_of_error ((select_compiled asks).trans (selectCompiled_of_not_identifier noBracket type))
  | compiledRegister asks type category =>
    have hselect : FieldKind.select p c e callback = _ :=
      (select_compiled asks).trans (selectCompiled_of_identifier type)
    rw [category] at hselect ⊢
    exact selectInto_of_error hselect
  | decoded asks type category operand headers =>
    refine selectInto_of_compiled asks type ?_ headers
    rw [category, operand, FieldKind.codecFor]
  | encoded asks type category operand headers =>
    refine selectInto_of_compiled asks type ?_ headers
    rw [category, operand, FieldKind.codecFor]

/-- The rules say of every entry what becomes of it, and of the headers. -/
theorem selection_rules (p : Profile) (c : Category) (index : Nat) (e : Entry) (callback : String) (i : Includes)
    (result : Except CompileError FieldKind) (i' : Includes) :
    e.selectInto p c index callback i = (result, i') ↔ e.Selects p c index callback i result i' := by
  constructor
  · intro h
    have hselects := selects_selectInto p c index e callback i
    rwa [h] at hselects
  · exact selectInto_of_selects

/-! ## All entries -/

def headersAfter (p : Profile) (c : Category) : Nat → List Entry → Includes → Includes
  | _, [], i => i
  | index, e :: es, i =>
    let (_, i) := e.selectInto p c index (Identifier.callback c (Identifier.derive e.name)) i
    headersAfter p c (index + 1) es i

/-- A field is assembled of the kind that is selected, and the headers go on to the next one. -/
theorem assembleField_of_selects {k : Except CompileError FieldKind}
    (h : e.Selects p c index (Identifier.callback c (Identifier.derive e.name)) i k i') :
    (assembleField p c index e i).result = k.map fun kind => (Field.ofEntry c e kind, i') := by
  rw [assembleField, selectInto_of_selects h]
  cases k <;> rfl

theorem headersAfter_of_compiles {es : List Entry} {fs : List Field} (h : List.Forall₂ (Field.Compiles p c) es fs)
    (index : Nat) (i : Includes) : headersAfter p c index es i = i.addFields fs := by
  induction h generalizing index i with
  | nil => rfl
  | cons hf _ ih =>
    obtain ⟨k, hk, rfl⟩ := hf
    rw [headersAfter, selectInto_of_ok hk]
    exact ih (index + 1) (i.addKind k)

/-- The headers of a service are those that its entries leave behind, category by category. -/
theorem includes_of_compile {value : Value} {s : Service} (h : (compile p value).result = .ok s) :
    ∃ ms d, value = .object ms ∧ Document.ReadFrom ms d ∧ s.includes = headersAfter p .register 0 d.registers
      (headersAfter p .output 0 d.outputs (headersAfter p .input 0 d.inputs .empty)) := by
  obtain ⟨ms, d, hvalue, hfrom, -, hs⟩ := compile_eq_ok h
  obtain ⟨hfields, -, -, hincludes, -⟩ := assembleService_eq_ok.1 hs
  have hin := headersAfter_of_compiles (hfields .input) 0
  have hout := headersAfter_of_compiles (hfields .output) 0
  have hreg := headersAfter_of_compiles (hfields .register) 0
  simp only [Document.entries, Service.fields] at hin hout hreg
  refine ⟨ms, d, hvalue, hfrom, ?_⟩
  rw [hin, hout, hreg, hincludes, Includes.addFields_append, Includes.addFields_append]

end ServiceSchema
