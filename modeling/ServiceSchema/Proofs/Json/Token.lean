import ServiceSchema.Proofs.Json.Numeral
import ServiceSchema.Proofs.Json.Reader

/-! # Tokens as they are written
The grammar of scalars: keywords, numerals with any form of exponent, and strings with any of their escapes. Each is
read as one lexeme, or as a broken one if its value is out of range or its surrogates have no partners. -/
namespace ServiceSchema.Json

/-! ## Lexemes of tokens -/

def lexemeOf (cs : List Char) : Lexeme := (lexemes cs).headD .foreign

/-- The token is read as one lexeme of a kind, wherever no numeral goes on, or as a broken one, behind which nothing is
read. -/
def ReadsAs (P : Lexeme → Prop) (cs : List Char) : Prop :=
  (∃ l, P l ∧ ∀ rest, Delimits rest → lexemes (cs ++ rest) = l :: lexemes rest) ∨
    ∀ rest, Delimits rest → ∃ l : Lexeme, l.isBroken ∧ lexemes (cs ++ rest) = [l]

theorem lexemeOf_of_lexemes {cs : List Char} {l : Lexeme} {ls : List Lexeme} (h : lexemes (cs ++ []) = l :: ls) :
    lexemeOf cs = l := by
  rw [List.append_nil] at h
  rw [lexemeOf, h]
  rfl

theorem upToFault_broken {l : Lexeme} (h : l.isBroken) (ls : List Lexeme) :
    upToFault (l :: ls) = [.broken (.eof .eofInValue)] := by
  cases l <;> first | rfl | cases h

namespace ReadsAs

variable {P Q : Lexeme → Prop} {cs : List Char}

theorem mono (h : ReadsAs P cs) (hPQ : ∀ l, P l → Q l) : ReadsAs Q cs :=
  h.imp_left fun ⟨l, hl, hlexemes⟩ => ⟨l, hPQ l hl, hlexemes⟩

theorem lexemeOf_cases (h : ReadsAs P cs) : P (lexemeOf cs) ∨ (lexemeOf cs).isBroken := by
  rcases h with ⟨l, hl, hlexemes⟩ | hbroken
  · left
    rwa [lexemeOf_of_lexemes (hlexemes [] trivial)]
  · right
    obtain ⟨l, hl, hlexemes⟩ := hbroken [] trivial
    rwa [lexemeOf_of_lexemes hlexemes]

theorem spells (h : ReadsAs P cs) : Spells cs [lexemeOf cs] := by
  rcases h with ⟨l, hl, hlexemes⟩ | hbroken
  · rw [lexemeOf_of_lexemes (hlexemes [] trivial)]
    exact spells_of_lexemes hlexemes
  · obtain ⟨m, hm, hself⟩ := hbroken [] trivial
    intro rest hrest
    obtain ⟨l, hl, hlexemes⟩ := hbroken rest hrest
    rw [hlexemes, lexemeOf_of_lexemes hself, List.singleton_append, upToFault_broken hl, upToFault_broken hm]

end ReadsAs

/-! ## Strings -/

/-- What may stand between the quotes of a string: characters, escapes of one letter, and escapes of four digits. -/
inductive StringContent : List Char → Prop where
  | nil : StringContent []
  | plain {c : Char} {cs : List Char} (hquote : c ≠ '"') (hslash : c ≠ '\\') (hcontrol : ¬ c < ' ')
      (h : StringContent cs) : StringContent (c :: cs)
  | escape {e : Char} {cs : List Char} (he : e ∈ ['"', '\\', '/', 'b', 'f', 'n', 'r', 't'])
      (h : StringContent cs) : StringContent ('\\' :: e :: cs)
  | unicode {a b c d : Char} {cs : List Char} (ha : (Lexeme.hexDigit? a).isSome) (hb : (Lexeme.hexDigit? b).isSome)
      (hc : (Lexeme.hexDigit? c).isSome) (hd : (Lexeme.hexDigit? d).isSome) (h : StringContent cs) :
      StringContent ('\\' :: 'u' :: a :: b :: c :: d :: cs)

structure StringToken where
  content : List Char
  wellFormed : StringContent content

def StringToken.chars (t : StringToken) : List Char := '"' :: (t.content ++ ['"'])

theorem exists_hexQuad? {a b c d : Char} (ha : (Lexeme.hexDigit? a).isSome) (hb : (Lexeme.hexDigit? b).isSome)
    (hc : (Lexeme.hexDigit? c).isSome) (hd : (Lexeme.hexDigit? d).isSome) : ∃ n, Lexeme.hexQuad? a b c d = some n := by
  obtain ⟨a', ha⟩ := Option.isSome_iff_exists.1 ha
  obtain ⟨b', hb⟩ := Option.isSome_iff_exists.1 hb
  obtain ⟨c', hc⟩ := Option.isSome_iff_exists.1 hc
  obtain ⟨d', hd⟩ := Option.isSome_iff_exists.1 hd
  exact ⟨_, by rw [Lexeme.hexQuad?, ha, hb, hc, hd]⟩

theorem exists_simpleEscape? {e : Char} (h : e ∈ ['"', '\\', '/', 'b', 'f', 'n', 'r', 't']) :
    e ≠ 'u' ∧ ∃ d, Lexeme.simpleEscape? e = some d := by
  simp only [List.mem_cons, List.not_mem_nil, or_false] at h
  rcases h with rfl | rfl | rfl | rfl | rfl | rfl | rfl | rfl <;> exact ⟨by decide, _, rfl⟩

/-- What is read of the inside of a string does not depend on what follows its closing quote: it is read as some
characters, or it is broken. -/
def ReadsContent (lead : Option Nat) (cs : List Char) : Prop :=
  (∃ s, ∀ rest, Lexeme.stringBody lead (cs ++ '"' :: rest) = .ok (s, rest)) ∨
    ∀ rest, ∃ f, Lexeme.stringBody lead (cs ++ '"' :: rest) = .error f

/-- A character is read, and then the rest. -/
theorem readsContent_of_map {lead : Option Nat} {cs ds : List Char} {c : Char} (hds : ReadsContent none ds)
    (h : ∀ rest, Lexeme.stringBody lead (cs ++ '"' :: rest)
      = (Lexeme.stringBody none (ds ++ '"' :: rest)).map fun r => (c :: r.1, r.2)) : ReadsContent lead cs := by
  rcases hds with ⟨s, hs⟩ | hbroken
  · refine .inl ⟨c :: s, ?_⟩
    intro rest
    rw [h, hs]
    rfl
  · refine .inr ?_
    intro rest
    obtain ⟨f, hf⟩ := hbroken rest
    exact ⟨f, by rw [h, hf]; rfl⟩

theorem stringBody_unicode {a b c d : Char} {n : Nat} (hn : Lexeme.hexQuad? a b c d = some n) (lead : Option Nat)
    (cs : List Char) : Lexeme.stringBody lead ('\\' :: 'u' :: a :: b :: c :: d :: cs) = match lead with
      | some m =>
        if Lexeme.isTrailSurrogate n then (Lexeme.stringBody none cs).map fun r => (Lexeme.pairedChar m n :: r.1, r.2)
        else .error (.upTo .loneSurrogate cs)
      | none =>
        if Lexeme.isTrailSurrogate n then .error (.upTo .loneSurrogate cs)
        else if Lexeme.isLeadSurrogate n then Lexeme.stringBody (some n) cs
        else (Lexeme.stringBody none cs).map fun r => (Char.ofNat n :: r.1, r.2) := by
  rw [Lexeme.stringBody.eq_def]
  simp only [if_true, hn]
  cases lead <;> rfl

/-- After a leading surrogate only its partner can be read. -/
theorem stringBody_unpaired {c : Char} {cs : List Char} (h : c = '\\' → ∃ e es, cs = e :: es ∧ e ≠ 'u') (m : Nat) :
    ∃ f, Lexeme.stringBody (some m) (c :: cs) = .error f := by
  rw [Lexeme.stringBody.eq_def]
  by_cases hc : c = '\\'
  · obtain ⟨e, es, rfl, he⟩ := h hc
    simp only [hc, if_true, he, if_false, Option.isSome_some]
    exact ⟨_, rfl⟩
  · simp only [hc, if_false, Option.isSome_some, if_true]
    exact ⟨_, rfl⟩

theorem readsContent {cs : List Char} (h : StringContent cs) (lead : Option Nat) : ReadsContent lead cs := by
  -- An escape can leave a leading surrogate behind, so the rest has to be read after any.
  induction h generalizing lead with
  | nil =>
    cases lead with
    | none => exact .inl ⟨[], fun rest => stringBody_escaped [] rest⟩
    | some m => exact .inr fun rest => stringBody_unpaired (fun hc => absurd hc (by decide)) m
  | plain hquote hslash hcontrol _ ih =>
    cases lead with
    | none => exact readsContent_of_map (ih none) fun rest => stringBody_plain hquote hslash hcontrol _
    | some m => exact .inr fun rest => stringBody_unpaired (fun hc => absurd hc hslash) m
  | escape he _ ih =>
    obtain ⟨hu, d, hd⟩ := exists_simpleEscape? he
    cases lead with
    | none => exact readsContent_of_map (ih none) fun rest => stringBody_simple hu hd _
    | some m => exact .inr fun rest => stringBody_unpaired (fun _ => ⟨_, _, rfl, hu⟩) m
  | unicode ha hb hc hd _ ih =>
    obtain ⟨n, hn⟩ := exists_hexQuad? ha hb hc hd
    have hread := stringBody_unicode hn lead
    cases lead with
    | some m =>
      by_cases htrail : Lexeme.isTrailSurrogate n
      · simp only [htrail, if_true] at hread
        exact readsContent_of_map (ih none) fun rest => hread _
      · simp only [htrail, Bool.false_eq_true, if_false] at hread
        exact .inr fun rest => ⟨_, hread _⟩
    | none =>
      by_cases htrail : Lexeme.isTrailSurrogate n
      · simp only [htrail, if_true] at hread
        exact .inr fun rest => ⟨_, hread _⟩
      · by_cases hlead : Lexeme.isLeadSurrogate n
        · simp only [htrail, hlead, Bool.false_eq_true, if_false, if_true] at hread
          exact (ih (some n)).imp (fun ⟨s, hs⟩ => ⟨s, fun rest => (hread _).trans (hs rest)⟩)
            fun hbroken rest => ⟨_, (hread _).trans (hbroken rest).choose_spec⟩
        · simp only [htrail, hlead, Bool.false_eq_true, if_false] at hread
          exact readsContent_of_map (ih none) fun rest => hread _

/-- A string is read as a string, or broken. -/
theorem StringToken.readsAs (t : StringToken) : ReadsAs (fun l => ∃ s, l = .string s) t.chars := by
  have hlexemes (rest : List Char) : lexemes (t.chars ++ rest)
      = (Lexeme.orBroken .brokenString (fun s => Lexeme.string (String.ofList s))
          (Lexeme.stringBody none (t.content ++ '"' :: rest))).1
        :: lexemes (Lexeme.orBroken .brokenString (fun s => Lexeme.string (String.ofList s))
          (Lexeme.stringBody none (t.content ++ '"' :: rest))).2 := by
    rw [StringToken.chars, List.cons_append, List.append_assoc]
    exact lexemes_read rfl _
  rcases readsContent t.wellFormed none with ⟨s, hs⟩ | hbroken
  · refine .inl ⟨_, ⟨String.ofList s, rfl⟩, ?_⟩
    intro rest _
    rw [hlexemes, hs]
    rfl
  · refine .inr ?_
    intro rest _
    obtain ⟨f, hf⟩ := hbroken rest
    refine ⟨.brokenString f, rfl, ?_⟩
    rw [hlexemes, hf]
    rfl

/-! ## Numerals -/

structure NumberToken where
  numeral : Numeral
  wellFormed : numeral.WellFormed
  /-- The exponent begins with a capital letter. -/
  capital : Bool
  /-- The exponent has a plus, if it has no minus. -/
  plus : Bool

namespace NumberToken

def exponentSign (plus negative : Bool) : List Char := if negative then ['-'] else if plus then ['+'] else []

def exponentChars (t : NumberToken) : List Char :=
  t.numeral.exponent.elim [] fun e =>
    (if t.capital then 'E' else 'e') :: (exponentSign t.plus e.negative ++ e.digits.map Nat.digitChar)

def chars (t : NumberToken) : List Char :=
  minus t.numeral.negative
    ++ (t.numeral.whole.map Nat.digitChar ++ (Numeral.fractionChars t.numeral.fraction ++ t.exponentChars))

theorem exponentPart_signed (plus negative : Bool) {ds : List Nat} (h : ds ≠ [] ∧ ∀ d ∈ ds, d < 10)
    {mark : Char} (hmark : mark = 'e' ∨ mark = 'E') (rest : List Char) :
    Lexeme.exponentPart (mark :: (exponentSign plus negative ++ (ds.map Nat.digitChar ++ rest)))
      = Lexeme.exponentDigits negative (ds.map Nat.digitChar ++ rest) := by
  obtain ⟨⟨d, ds, rfl⟩, hlt⟩ := h.imp_left List.exists_cons_of_ne_nil
  have hd : (Lexeme.digit? (Nat.digitChar d)).isSome := by
    rw [digit?_digitChar (hlt d List.mem_cons_self)]
    rfl
  rw [Lexeme.exponentPart.eq_def]
  simp only [hmark, if_true]
  cases negative with
  | true => rfl
  | false =>
    cases plus with
    | true => rfl
    | false =>
      simp only [exponentSign, Bool.false_eq_true, if_false, List.nil_append, List.map_cons, List.cons_append]
      split
      · rename_i heq
        exact absurd (List.cons.inj heq).1 (ne_of_digit hd rfl)
      · rename_i heq
        exact absurd (List.cons.inj heq).1 (ne_of_digit hd rfl)
      · rfl

theorem exponentPart_chars (t : NumberToken) {rest : List Char} (hrest : Delimits rest) :
    Lexeme.exponentPart (t.exponentChars ++ rest) = .ok (t.numeral.exponent, rest) := by
  cases he : t.numeral.exponent with
  | none =>
    rw [exponentChars, he]
    exact exponentPart_of_delimits hrest
  | some e =>
    have hdigits := t.wellFormed.exponent e he
    have hmark : (if t.capital then 'E' else 'e') = 'e' ∨ (if t.capital then 'E' else 'e') = 'E' := by
      cases t.capital <;> decide
    rw [exponentChars, he, Option.elim_some, List.cons_append, List.append_assoc,
      exponentPart_signed t.plus e.negative hdigits hmark, Lexeme.exponentDigits,
      Numeral.someDigits_map hdigits (digits_of_delimits hrest)]
    rfl

/-- An exponent is no part of the digits before it. -/
theorem digits_exponentChars (t : NumberToken) {rest : List Char} (hrest : Delimits rest) :
    Lexeme.digits (t.exponentChars ++ rest) = ([], t.exponentChars ++ rest) ∧
      ∀ cs, t.exponentChars ++ rest ≠ '.' :: cs := by
  rw [exponentChars]
  cases t.numeral.exponent with
  | none =>
    refine ⟨digits_of_delimits hrest, ?_⟩
    rintro cs rfl
    exact hrest.2.1 rfl
  | some e => cases t.capital <;> exact ⟨rfl, by simp⟩

theorem chars_append (t : NumberToken) (rest : List Char) : t.chars ++ rest = minus t.numeral.negative
    ++ (t.numeral.whole.map Nat.digitChar
      ++ (Numeral.fractionChars t.numeral.fraction ++ (t.exponentChars ++ rest))) := by
  simp [chars]

theorem readNumeral_chars (t : NumberToken) {rest : List Char} (hrest : Delimits rest) :
    Lexeme.readNumeral t.numeral.negative (t.numeral.whole.map Nat.digitChar
      ++ (Numeral.fractionChars t.numeral.fraction ++ (t.exponentChars ++ rest))) = .ok (t.numeral, rest) := by
  obtain ⟨hdigits, hpoint⟩ := t.digits_exponentChars hrest
  exact Numeral.readNumeral_of_exponent t.wellFormed (t.exponentPart_chars hrest) hdigits hpoint

/-- A numeral is read as its value, or broken if that is out of range. -/
theorem readsAs (t : NumberToken) : ReadsAs (fun l => ∃ n, l = .number n) t.chars := by
  have hlexemes {rest : List Char} (hrest : Delimits rest) :=
    Numeral.lexemes_of_readNumeral t.wellFormed (t.readNumeral_chars hrest)
  simp only [← t.chars_append] at hlexemes
  cases hvalue : t.numeral.value with
  | ok n =>
    rw [hvalue] at hlexemes
    exact .inl ⟨_, ⟨n, rfl⟩, fun rest hrest => hlexemes hrest⟩
  | error e =>
    rw [hvalue] at hlexemes
    refine .inr ?_
    intro rest hrest
    obtain ⟨f, hf⟩ := hlexemes hrest
    exact ⟨_, rfl, hf⟩

theorem lexemeOf_chars {t : NumberToken} {n : Number} (h : t.numeral.value = .ok n) : lexemeOf t.chars = .number n := by
  have hlexemes := Numeral.lexemes_of_readNumeral t.wellFormed (t.readNumeral_chars (show Delimits [] from trivial))
  rw [h, ← t.chars_append] at hlexemes
  exact lexemeOf_of_lexemes hlexemes

end NumberToken

/-! ## Scalars -/

inductive ScalarToken where
  | null
  | bool (b : Bool)
  | number (t : NumberToken)
  | string (t : StringToken)

def ScalarToken.chars : ScalarToken → List Char
  | .null => Printer.null
  | .bool b => Printer.bool b
  | .number t => t.chars
  | .string t => t.chars

theorem ScalarToken.readsAs (t : ScalarToken) : ReadsAs (fun l => ∃ v, l.scalar? = some v) t.chars := by
  cases t with
  | null => exact .inl ⟨.null, ⟨_, rfl⟩, fun rest _ => lexemes_null rest⟩
  | bool b => exact .inl ⟨.bool b, ⟨_, rfl⟩, fun rest _ => lexemes_bool b rest⟩
  | number t =>
    apply t.readsAs.mono
    rintro _ ⟨n, rfl⟩
    exact ⟨_, rfl⟩
  | string t =>
    apply t.readsAs.mono
    rintro _ ⟨s, rfl⟩
    exact ⟨_, rfl⟩

end ServiceSchema.Json
