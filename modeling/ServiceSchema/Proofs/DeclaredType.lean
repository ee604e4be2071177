import Mathlib.Data.List.Basic
import Mathlib.Data.List.Induction
import ServiceSchema.DeclaredType
import ServiceSchema.Proofs.Result

/-! # The grammar of declared types
Which texts declare a type, which type it is, and why the others declare none. A type is printed as its shortest
declaration: the one whose length has no zeros in front. -/
namespace ServiceSchema.DeclaredType

variable {s element clause digits : String} {t : DeclaredType} {scalar : Scalar} {n : UInt32} {cs : List Char}

/-! ## Lengths -/

/-- Decimal digits, any number of zeros in front, of a positive number of 32 bits. -/
structure SpellsLength (digits : String) (n : UInt32) : Prop where
  nonempty : digits ≠ ""
  decimal : ∀ c ∈ digits.toList, '0' ≤ c ∧ c ≤ '9'
  value : Nat.ofDigitChars 10 digits.toList 0 = n.toNat
  positive : 1 ≤ n.toNat

theorem ofDigits_eq (cs : List Char) : ofDigits cs = Nat.ofDigitChars 10 cs 0 := by
  rw [ofDigits, Nat.ofDigitChars_eq_foldl]
  congr 1
  funext n c
  rw [Nat.mul_comm]

theorem all_isDigit_iff : cs.all isDigit ↔ ∀ c ∈ cs, '0' ≤ c ∧ c ≤ '9' := by
  simp only [List.all_eq_true, isDigit, Bool.and_eq_true, decide_eq_true_eq]

theorem length?_eq_some : length? digits.toList = some n ↔ SpellsLength digits n := by
  simp only [length?, ofDigits_eq, all_isDigit_iff, ne_eq, String.toList_eq_nil_iff]
  constructor
  · intro h
    rw [Option.ite_none_right_eq_some] at h
    obtain ⟨⟨hnonempty, hdecimal, hpos, hbound⟩, hn⟩ := h
    have hvalue : Nat.ofDigitChars 10 digits.toList 0 = n.toNat := by
      rw [← Option.some.inj hn, UInt32.toNat_ofNat_of_lt' hbound]
    exact ⟨hnonempty, hdecimal, hvalue, hvalue ▸ hpos⟩
  · rintro ⟨hnonempty, hdecimal, hvalue, hpos⟩
    rw [hvalue, if_pos ⟨hnonempty, hdecimal, hpos, n.toNat_lt⟩, UInt32.ofNat_toNat]

theorem length?_eq_none : length? digits.toList = none ↔ ∀ n, ¬ SpellsLength digits n := by
  rw [Option.eq_none_iff_forall_ne_some]
  simp only [ne_eq, length?_eq_some]

/-! ## Lengths without zeros in front -/

theorem digitChar_sub {c : Char} (h : '0' ≤ c ∧ c ≤ '9') :
    c.toNat - '0'.toNat < 10 ∧ Nat.digitChar (c.toNat - '0'.toNat) = c := by
  have hlow : '0'.toNat ≤ c.toNat := h.1
  have hhigh : c.toNat ≤ '9'.toNat := h.2
  have hlt : c.toNat - '0'.toNat < 10 := by
    simp only [Char.reduceToNat] at hlow hhigh ⊢
    omega
  refine ⟨hlt, Char.toNat_inj.1 ?_⟩
  rw [Nat.toNat_digitChar_of_lt_ten hlt]
  simp only [Char.reduceToNat] at hlow ⊢
  omega

/-- Digits that do not begin with a zero are those that their number is printed with. -/
theorem toDigits_of_head_ne_zero (hne : cs ≠ []) (hdecimal : ∀ c ∈ cs, '0' ≤ c ∧ c ≤ '9')
    (hhead : cs.head? ≠ some '0') : Nat.toDigits 10 (Nat.ofDigitChars 10 cs 0) = cs := by
  induction cs using List.reverseRecOn with
  | nil => exact absurd rfl hne
  | append_singleton ds c ih =>
    obtain ⟨hlt, hc⟩ := digitChar_sub (hdecimal c (List.mem_append_right ds List.mem_cons_self))
    rw [Nat.ofDigitChars_append, Nat.ofDigitChars_cons, Nat.ofDigitChars_nil]
    by_cases hds : ds = []
    · rw [hds, Nat.ofDigitChars_nil, Nat.mul_zero, Nat.zero_add, Nat.toDigits_of_lt_base hlt, hc, List.nil_append]
    · rw [List.head?_append_of_ne_nil ds hds] at hhead
      have hprinted := ih hds (fun d hd => hdecimal d (List.mem_append_left _ hd)) hhead
      have hpos : 0 < Nat.ofDigitChars 10 ds 0 := by
        refine Nat.pos_of_ne_zero fun hzero => hhead ?_
        rw [← hprinted, hzero, Nat.toDigits_zero]
        rfl
      rw [← Nat.toDigits_append_toDigits (by decide) hpos hlt, hprinted, Nat.toDigits_of_lt_base hlt, hc]

theorem head?_toDigits_ne_zero {n : Nat} (h : 0 < n) : (Nat.toDigits 10 n).head? ≠ some '0' := by
  induction n using Nat.strongRecOn with
  | ind n ih =>
    rw [Nat.toDigits_eq_if (by decide)]
    split
    · next hlt =>
      have hdigit : ∀ d < 10, 0 < d → Nat.digitChar d ≠ '0' := by decide
      simpa using hdigit n hlt h
    · next hge =>
      rw [List.head?_append_of_ne_nil _ Nat.toDigits_ne_nil]
      exact ih (n / 10) (by omega) (by omega)

theorem spellsLength_toString (h : 1 ≤ n.toNat) : SpellsLength (toString n.toNat) n := by
  have hdigits : (toString n.toNat).toList = Nat.toDigits 10 n.toNat := by
    rw [Nat.toString_eq_ofList_toDigits, String.toList_ofList]
  refine ⟨fun hnil => ?_, fun c hc => ?_, ?_, h⟩
  · rw [hnil] at hdigits
    exact Nat.toDigits_ne_nil hdigits.symm
  · rw [hdigits] at hc
    have hdigit := Nat.isDigit_of_mem_toDigits (by decide) (by decide) hc
    simp only [Char.isDigit, Bool.and_eq_true, decide_eq_true_eq] at hdigit
    exact hdigit
  · rw [hdigits, Nat.ofDigitChars_ten_toDigits]

/-- Of all the spellings of a length, one does not begin with a zero. -/
theorem SpellsLength.toString_eq_iff (h : SpellsLength digits n) :
    toString n.toNat = digits ↔ digits.toList.head? ≠ some '0' := by
  rw [Nat.toString_eq_ofList_toDigits]
  constructor
  · rintro rfl
    rw [String.toList_ofList]
    exact head?_toDigits_ne_zero h.positive
  · intro hhead
    rw [← h.value, toDigits_of_head_ne_zero (mt String.toList_eq_nil_iff.1 h.nonempty) h.decimal hhead,
      String.ofList_toList]

/-! ## Declarations -/

/-- The grammar: the name of a scalar, or such a name and a length in brackets. -/
def Declares (s : String) : DeclaredType → Prop
  | .scalar t => s = t.name
  | .array t n => ∃ digits, s = t.name ++ "[" ++ digits ++ "]" ∧ SpellsLength digits n

/-- Why a text declares no type. The last opening bracket divides it; the bracket that closes is looked for first, then
the length is looked at, and then the scalar. -/
inductive Refused (s : String) : TypeError → Prop where
  | missingBracket {element clause : String} (split : s = element ++ "[" ++ clause) (last : '[' ∉ clause.toList)
      (unclosed : ∀ digits, clause ≠ digits ++ "]") : Refused s .missingBracket
  | invalidLength {element digits : String} (split : s = element ++ "[" ++ digits ++ "]") (last : '[' ∉ digits.toList)
      (length : ∀ n, ¬ SpellsLength digits n) : Refused s (.invalidLength digits)
  | unknownElement {element digits : String} {n : UInt32} (split : s = element ++ "[" ++ digits ++ "]")
      (length : SpellsLength digits n) (unknown : ∀ t : Scalar, element ≠ t.name) : Refused s (.unknownScalar element)
  | unknownScalar (noBracket : '[' ∉ s.toList) (unknown : ∀ t : Scalar, s ≠ t.name) : Refused s (.unknownScalar s)

theorem scalar?_eq_ok : scalar? s.toList = .ok scalar ↔ s = scalar.name := by
  rw [scalar?, String.ofList_toList]
  constructor
  · intro h
    split at h
    · next t ht =>
      cases h
      exact Scalar.ofName?_eq_some ht
    · cases h
  · rintro rfl
    rw [Scalar.ofName?_name]

theorem scalar?_eq_error {e : TypeError} :
    scalar? s.toList = .error e ↔ (∀ t : Scalar, s ≠ t.name) ∧ e = .unknownScalar s := by
  rw [scalar?, String.ofList_toList]
  constructor
  · intro h
    split at h
    · cases h
    · next hnone =>
      cases h
      refine ⟨fun t ht => ?_, rfl⟩
      rw [ht, Scalar.ofName?_name] at hnone
      cases hnone
  · rintro ⟨hunknown, rfl⟩
    split
    · next t ht => exact absurd (Scalar.ofName?_eq_some ht) (hunknown t)
    · rfl

theorem bracket_not_mem_name (t : Scalar) : '[' ∉ t.name.toList := by cases t <;> decide

theorem SpellsLength.bracket_not_mem (h : SpellsLength digits n) : '[' ∉ digits.toList :=
  fun hmem => absurd (h.decimal '[' hmem).2 (by decide)

theorem resolve_of_no_bracket (h : '[' ∉ s.toList) : resolve s = (scalar? s.toList).map .scalar := by
  rw [resolve, splitLast_eq_none.2 h]

theorem splitLast_append (h : '[' ∉ clause.toList) :
    splitLast '[' (element ++ "[" ++ clause).toList = some (element.toList, clause.toList) :=
  splitLast_eq_some.2 ⟨by simp, h⟩

theorem resolve_of_unclosed (hlast : '[' ∉ clause.toList) (hunclosed : ∀ digits, clause ≠ digits ++ "]") :
    resolve (element ++ "[" ++ clause) = .error .missingBracket := by
  rw [resolve, splitLast_append hlast]
  cases hdigits : dropLast? ']' clause.toList with
  | none => simp only [hdigits]
  | some ds =>
    refine absurd (String.toList_inj.1 ?_) (hunclosed (String.ofList ds))
    rw [dropLast?_eq_some.1 hdigits, String.toList_append, String.toList_ofList]
    rfl

theorem resolve_of_clause (hlast : '[' ∉ digits.toList) : resolve (element ++ "[" ++ digits ++ "]")
    = match length? digits.toList with
      | none => .error (.invalidLength digits)
      | some n => (scalar? element.toList).map fun t => .array t n := by
  have hclause : '[' ∉ (digits ++ "]").toList := by
    rw [String.toList_append, List.mem_append, not_or]
    exact ⟨hlast, by decide⟩
  have hdigits : dropLast? ']' (digits ++ "]").toList = some digits.toList :=
    dropLast?_eq_some.2 (String.toList_append ..)
  rw [String.append_assoc, resolve, splitLast_append hclause]
  cases hlength : length? digits.toList <;> simp only [hdigits, hlength, String.ofList_toList]

/-- A text has no opening bracket, or its last one opens what is not closed, or what is. -/
theorem shape_cases (s : String) : '[' ∉ s.toList ∨
    (∃ element clause, s = element ++ "[" ++ clause ∧ '[' ∉ clause.toList ∧ ∀ digits, clause ≠ digits ++ "]") ∨
    ∃ element digits, s = element ++ "[" ++ digits ++ "]" ∧ '[' ∉ digits.toList := by
  by_cases hmem : '[' ∈ s.toList
  · right
    obtain ⟨⟨element, clause⟩, hsplit⟩ :=
      Option.ne_none_iff_exists'.1 (mt (splitLast_eq_none (c := '[')).1 (not_not_intro hmem))
    obtain ⟨hs, hlast⟩ := splitLast_eq_some.1 hsplit
    have hs' : s = String.ofList element ++ "[" ++ String.ofList clause := by
      rw [← String.toList_inj, hs]
      simp
    by_cases hclosed : ∃ digits, String.ofList clause = digits ++ "]"
    · obtain ⟨digits, hdigits⟩ := hclosed
      refine .inr ⟨String.ofList element, digits, ?_, fun hbracket => hlast ?_⟩
      · rw [hs', hdigits, ← String.append_assoc]
      · rw [← String.toList_ofList (l := clause), hdigits, String.toList_append]
        exact List.mem_append_left _ hbracket
    · exact .inl ⟨_, _, hs', by rwa [String.toList_ofList], not_exists.1 hclosed⟩
  · exact .inl hmem

theorem array_of_resolve (hlast : '[' ∉ digits.toList) (h : resolve (element ++ "[" ++ digits ++ "]") = .ok t) :
    ∃ scalar n, SpellsLength digits n ∧ element = scalar.name ∧ t = .array scalar n := by
  rw [resolve_of_clause hlast] at h
  split at h
  · cases h
  · next n hn =>
    obtain ⟨scalar, hscalar, rfl⟩ := map_eq_ok.1 h
    exact ⟨scalar, n, length?_eq_some.1 hn, scalar?_eq_ok.1 hscalar, rfl⟩

theorem declares_of_resolve (h : resolve s = .ok t) : Declares s t := by
  rcases shape_cases s with hnone | ⟨element, clause, rfl, hlast, hunclosed⟩ | ⟨element, digits, rfl, hlast⟩
  · rw [resolve_of_no_bracket hnone] at h
    obtain ⟨scalar, hscalar, rfl⟩ := map_eq_ok.1 h
    exact scalar?_eq_ok.1 hscalar
  · rw [resolve_of_unclosed hlast hunclosed] at h
    cases h
  · obtain ⟨scalar, n, hlength, rfl, rfl⟩ := array_of_resolve hlast h
    exact ⟨digits, rfl, hlength⟩

theorem resolve_of_declares (h : Declares s t) : resolve s = .ok t := by
  cases t with
  | scalar scalar =>
    rw [show s = scalar.name from h, resolve_of_no_bracket (bracket_not_mem_name scalar), scalar?_eq_ok.2 rfl]
    rfl
  | array scalar n =>
    obtain ⟨digits, rfl, hlength⟩ := h
    simp only [resolve_of_clause hlength.bracket_not_mem, length?_eq_some.2 hlength, scalar?_eq_ok.2 rfl, map_ok]

theorem resolve_eq_ok : resolve s = .ok t ↔ Declares s t := ⟨declares_of_resolve, resolve_of_declares⟩

theorem refused_of_resolve {e : TypeError} (h : resolve s = .error e) : Refused s e := by
  rcases shape_cases s with hnone | ⟨element, clause, rfl, hlast, hunclosed⟩ | ⟨element, digits, rfl, hlast⟩
  · rw [resolve_of_no_bracket hnone, map_eq_error, scalar?_eq_error] at h
    obtain ⟨hunknown, rfl⟩ := h
    exact .unknownScalar hnone hunknown
  · rw [resolve_of_unclosed hlast hunclosed] at h
    cases h
    exact .missingBracket rfl hlast hunclosed
  · rw [resolve_of_clause hlast] at h
    split at h
    · next hlength =>
      cases h
      exact .invalidLength rfl hlast (length?_eq_none.1 hlength)
    · next n hlength =>
      rw [map_eq_error, scalar?_eq_error] at h
      obtain ⟨hunknown, rfl⟩ := h
      exact .unknownElement rfl (length?_eq_some.1 hlength) hunknown

theorem resolve_of_refused {e : TypeError} (h : Refused s e) : resolve s = .error e := by
  cases h with
  | missingBracket split last unclosed => rw [split, resolve_of_unclosed last unclosed]
  | invalidLength split last length => rw [split, resolve_of_clause last, length?_eq_none.2 length]
  | unknownElement split length unknown =>
    simp only [split, resolve_of_clause length.bracket_not_mem, length?_eq_some.2 length,
      scalar?_eq_error.2 ⟨unknown, rfl⟩, map_error]
  | unknownScalar noBracket unknown =>
    rw [resolve_of_no_bracket noBracket, scalar?_eq_error.2 ⟨unknown, rfl⟩, map_error]

/-! ## Printed types -/

/-- What stands in the last brackets of a text, if it ends with them, does not begin with a zero. -/
def NoZeroInFront (s : String) : Prop :=
  ∀ element digits, s = element ++ "[" ++ digits ++ "]" → '[' ∉ digits.toList → digits.toList.head? ≠ some '0'

theorem render_array (t : Scalar) (n : UInt32) : (array t n).render = t.name ++ "[" ++ toString n.toNat ++ "]" := rfl

theorem declares_render (h : ∀ n ∈ t.maxLength?, 1 ≤ n.toNat) : Declares t.render t := by
  cases t with
  | scalar t => rfl
  | array t n => exact ⟨toString n.toNat, render_array t n, spellsLength_toString (h n rfl)⟩

theorem render_eq_iff (h : resolve s = .ok t) : t.render = s ↔ NoZeroInFront s := by
  have hprinted {scalar : Scalar} {digits : String} {n : UInt32} (hlength : SpellsLength digits n) :
      (array scalar n).render = scalar.name ++ "[" ++ digits ++ "]" ↔ digits.toList.head? ≠ some '0' := by
    rw [render_array, String.append_left_inj, String.append_right_inj, hlength.toString_eq_iff]
  constructor
  · rintro hrender element digits rfl hlast
    obtain ⟨scalar, n, hlength, rfl, rfl⟩ := array_of_resolve hlast h
    exact (hprinted hlength).1 hrender
  · intro hfront
    cases t with
    | scalar scalar => exact (declares_of_resolve h).symm
    | array scalar n =>
      obtain ⟨digits, rfl, hlength⟩ := declares_of_resolve h
      exact (hprinted hlength).2 (hfront _ _ rfl hlength.bracket_not_mem)

/-- What is resolved is what the grammar has, every other text is refused for its own reason, and a type is what its
printed form declares. Of all the texts that declare it, the printed one has no zeros in front of its length. -/
theorem resolve_grammar (s : String) :
    (∀ t, resolve s = .ok (.scalar t) ↔ s = t.name) ∧
    (∀ t n, resolve s = .ok (.array t n) ↔ ∃ digits, s = t.name ++ "[" ++ digits ++ "]" ∧ SpellsLength digits n) ∧
    (∀ e, resolve s = .error e ↔ Refused s e) ∧
    (∀ t, resolve s = .ok t → (t.render = s ↔ NoZeroInFront s)) ∧
    ∀ t : DeclaredType, (∀ n ∈ t.maxLength?, 1 ≤ n.toNat) → resolve t.render = .ok t :=
  ⟨fun _ => resolve_eq_ok, fun _ _ => resolve_eq_ok, fun _ => ⟨refused_of_resolve, resolve_of_refused⟩,
    fun _ => render_eq_iff, fun _ h => resolve_eq_ok.2 (declares_render h)⟩

/-- Zeros in front are read, but not printed. -/
theorem resolve_grammar_padded : resolve "uint8_t[0016]" = .ok (.array .uint8 16) ∧
    (array .uint8 16).render ≠ "uint8_t[0016]" ∧ resolve (array .uint8 16).render = .ok (.array .uint8 16) := by
  obtain ⟨-, harray, -, hprinted, hrender⟩ := resolve_grammar "uint8_t[0016]"
  have hlength : SpellsLength "0016" 16 := ⟨by decide, all_isDigit_iff.1 (by decide), by decide, by decide⟩
  have hresolve := (harray .uint8 16).2 ⟨"0016", rfl, hlength⟩
  have hpositive : ∀ n ∈ (array .uint8 16).maxLength?, 1 ≤ n.toNat := by
    rintro n ⟨⟩
    decide
  refine ⟨hresolve, fun hsame => ?_, hrender _ hpositive⟩
  exact (hprinted _ hresolve).1 hsame "uint8_t" "0016" rfl (by decide) rfl

end ServiceSchema.DeclaredType
