import ServiceSchema.Json.Printer
import ServiceSchema.Proofs.Json.Scan
import ServiceSchema.Proofs.Json.Value

/-! # Spelling
Which lexemes a printed value is spelled with: the same ones in both layouts, and the value's own strings
and integers among them. -/
namespace ServiceSchema.Json

def lexemes (cs : List Char) : List Lexeme := (Token.scan cs).map Token.lexeme

/-- No numeral goes on here. -/
def Delimits : List Char → Prop
  | [] => True
  | c :: _ => Lexeme.digit? c = none ∧ c ≠ '.' ∧ c ≠ 'e' ∧ c ≠ 'E'

theorem delimits_cons {c : Char} (h : Lexeme.digit? c = none ∧ c ≠ '.' ∧ c ≠ 'e' ∧ c ≠ 'E') (cs : List Char) :
    Delimits (c :: cs) := h

theorem lexemes_blank {c : Char} (h : isBlank c) (cs : List Char) : lexemes (c :: cs) = lexemes cs := by
  rw [lexemes, Token.scan_blank h]
  rfl

theorem lexemes_read {c : Char} (h : isBlank c = false) (cs : List Char) :
    lexemes (c :: cs) = (Lexeme.read c cs).1 :: lexemes (Lexeme.read c cs).2 := by
  rw [lexemes, Token.scan_lexeme h]
  rfl

/-! ## Punctuation and keywords -/

@[simp] theorem lexemes_beginArray (cs : List Char) : lexemes ('[' :: cs) = .beginArray :: lexemes cs :=
  lexemes_read rfl cs

@[simp] theorem lexemes_endArray (cs : List Char) : lexemes (']' :: cs) = .endArray :: lexemes cs :=
  lexemes_read rfl cs

@[simp] theorem lexemes_beginObject (cs : List Char) : lexemes ('\x7b' :: cs) = .beginObject :: lexemes cs :=
  lexemes_read rfl cs

@[simp] theorem lexemes_endObject (cs : List Char) : lexemes ('\x7d' :: cs) = .endObject :: lexemes cs :=
  lexemes_read rfl cs

@[simp] theorem lexemes_comma (cs : List Char) : lexemes (',' :: cs) = .comma :: lexemes cs :=
  lexemes_read rfl cs

@[simp] theorem lexemes_colon (cs : List Char) : lexemes (':' :: cs) = .colon :: lexemes cs :=
  lexemes_read rfl cs

@[simp] theorem lexemes_space (cs : List Char) : lexemes (' ' :: cs) = lexemes cs := lexemes_blank rfl cs

@[simp] theorem lexemes_newline (level : Nat) (cs : List Char) :
    lexemes (Printer.newline level ++ cs) = lexemes cs := by
  have hspaces (n : Nat) : lexemes (List.replicate n ' ' ++ cs) = lexemes cs := by
    induction n with
    | zero => rfl
    | succ n ih => rw [List.replicate_succ, List.cons_append, lexemes_space, ih]
  rw [Printer.newline, List.cons_append, lexemes_blank rfl, hspaces]

@[simp] theorem lexemes_null (cs : List Char) : lexemes (Printer.null ++ cs) = .null :: lexemes cs :=
  lexemes_read rfl _

@[simp] theorem lexemes_bool (b : Bool) (cs : List Char) :
    lexemes (Printer.bool b ++ cs) = .bool b :: lexemes cs := by
  cases b <;> exact lexemes_read rfl _

/-! ## Strings -/

theorem hexQuad?_control {n : Nat} (h : n < 32) :
    Lexeme.hexQuad? '0' '0' (hexChar (n / 16)) (hexChar n) = some n := by
  revert n
  decide

theorem stringBody_simple {e d : Char} (hu : e ≠ 'u') (h : Lexeme.simpleEscape? e = some d) (cs : List Char) :
    Lexeme.stringBody none ('\\' :: e :: cs)
      = (Lexeme.stringBody none cs).map fun r => (d :: r.1, r.2) := by
  rw [Lexeme.stringBody.eq_def]
  simp only [if_true, hu, if_false, Option.isSome_none, Bool.false_eq_true, h]

theorem stringBody_control {c : Char} (h : c.toNat < 32) (cs : List Char) :
    Lexeme.stringBody none ('\\' :: 'u' :: '0' :: '0' :: hexChar (c.toNat / 16) :: hexChar c.toNat :: cs)
      = (Lexeme.stringBody none cs).map fun r => (c :: r.1, r.2) := by
  have htrail : Lexeme.isTrailSurrogate c.toNat = false := by
    simp only [Lexeme.isTrailSurrogate, Bool.and_eq_false_iff, decide_eq_false_iff_not]
    omega
  have hlead : Lexeme.isLeadSurrogate c.toNat = false := by
    simp only [Lexeme.isLeadSurrogate, Bool.and_eq_false_iff, decide_eq_false_iff_not]
    omega
  rw [Lexeme.stringBody.eq_def]
  simp only [if_true, hexQuad?_control h, htrail, hlead, Bool.false_eq_true, if_false, Char.ofNat_toNat]

theorem stringBody_plain {c : Char} (hquote : c ≠ '"') (hslash : c ≠ '\\') (h : ¬ c < ' ') (cs : List Char) :
    Lexeme.stringBody none (c :: cs) = (Lexeme.stringBody none cs).map fun r => (c :: r.1, r.2) := by
  rw [Lexeme.stringBody.eq_def]
  simp only [hslash, hquote, h, if_false, Option.isSome_none, Bool.false_eq_true]

/-- A character is read back from its escape. -/
theorem stringBody_escape (c : Char) (cs : List Char) :
    Lexeme.stringBody none (Printer.escape c ++ cs)
      = (Lexeme.stringBody none cs).map fun r => (c :: r.1, r.2) := by
  have hsimple (e d : Char) (hu : e ≠ 'u') (h : Lexeme.simpleEscape? e = some d) (hc : c = d) :
      Lexeme.stringBody none (['\\', e] ++ cs) = (Lexeme.stringBody none cs).map fun r => (c :: r.1, r.2) :=
    hc ▸ stringBody_simple hu h cs
  unfold Printer.escape
  split
  · exact hsimple '"' '"' (by decide) rfl ‹_›
  split
  · exact hsimple '\\' '\\' (by decide) rfl ‹_›
  split
  · exact hsimple 'b' '\x08' (by decide) rfl ‹_›
  split
  · exact hsimple 't' '\t' (by decide) rfl ‹_›
  split
  · exact hsimple 'n' '\n' (by decide) rfl ‹_›
  split
  · exact hsimple 'f' '\x0c' (by decide) rfl ‹_›
  split
  · exact hsimple 'r' '\r' (by decide) rfl ‹_›
  split
  · exact stringBody_control ‹_› cs
  · exact stringBody_plain ‹_› ‹_› ‹_› cs

theorem stringBody_escaped (cs rest : List Char) :
    Lexeme.stringBody none (cs.flatMap Printer.escape ++ '"' :: rest) = .ok (cs, rest) := by
  induction cs with
  | nil =>
    rw [List.flatMap_nil, List.nil_append, Lexeme.stringBody.eq_def]
    rfl
  | cons c cs ih =>
    rw [List.flatMap_cons, List.append_assoc, stringBody_escape, ih]
    rfl

@[simp] theorem lexemes_quoted (s : String) (cs : List Char) :
    lexemes (Printer.quoted s ++ cs) = .string s :: lexemes cs := by
  have hread : Lexeme.read '"' (s.toList.flatMap Printer.escape ++ '"' :: cs) = (.string s, cs) := by
    change Lexeme.orBroken .brokenString (fun s => Lexeme.string (String.ofList s)) _ = _
    rw [stringBody_escaped, Lexeme.orBroken, String.ofList_toList]
  have happend : Printer.quoted s ++ cs = '"' :: (s.toList.flatMap Printer.escape ++ '"' :: cs) := by
    simp [Printer.quoted]
  rw [happend, lexemes_read rfl, hread]

/-! ## Integers -/

theorem digit?_digitChar {d : Nat} (h : d < 10) : Lexeme.digit? (Nat.digitChar d) = some d := by
  revert d
  decide

def digitsValue (n : Nat) (ds : List Nat) : Nat := ds.foldl (fun n d => n * 10 + d) n

theorem le_digitsValue (n : Nat) (ds : List Nat) : n ≤ digitsValue n ds := by
  induction ds generalizing n with
  | nil => exact Nat.le_refl n
  | cons d ds ih =>
    have := ih (n * 10 + d)
    simp only [digitsValue, List.foldl_cons] at this ⊢
    omega

theorem absorb_digits {bound n : Nat} {ds : List Nat} (h : digitsValue n ds ≤ bound) :
    Numeral.absorb bound n ds = (digitsValue n ds, []) := by
  induction ds generalizing n with
  | nil => rfl
  | cons d ds ih =>
    have hd : n * 10 + d ≤ bound := Nat.le_trans (le_digitsValue _ ds) h
    rw [Numeral.absorb, if_pos hd, ih h]
    rfl

/-- The digits a natural number is printed with: no zero leads but the only one. -/
theorem toDigits_spec (n : Nat) : ∃ d ds, Nat.toDigits 10 n = (d :: ds).map Nat.digitChar ∧
    (∀ e ∈ d :: ds, e < 10) ∧ digitsValue 0 (d :: ds) = n ∧ (d = 0 → ds = []) := by
  induction n using Nat.strongRecOn with
  | ind n ih =>
    by_cases hn : n < 10
    · refine ⟨n, [], Nat.toDigits_of_lt_base hn, ?_, ?_, fun _ => rfl⟩
      · simpa using hn
      · simp [digitsValue]
    · obtain ⟨d, ds, hdigits, hlt, hvalue, hlead⟩ := ih (n / 10) (by omega)
      refine ⟨d, ds ++ [n % 10], ?_, ?_, ?_, ?_⟩
      · rw [Nat.toDigits_of_base_le (by decide) (by omega), hdigits]
        simp
      · intro e he
        rw [← List.cons_append, List.mem_append, List.mem_singleton] at he
        rcases he with he | rfl
        · exact hlt e he
        · exact Nat.mod_lt n (by decide)
      · simp only [digitsValue, List.foldl_cons, List.foldl_append, List.foldl_nil] at hvalue ⊢
        omega
      · intro hzero
        rw [hzero, hlead hzero] at hvalue
        simp only [digitsValue, List.foldl_cons, List.foldl_nil] at hvalue
        omega

theorem digits_of_delimits {rest : List Char} (h : Delimits rest) : Lexeme.digits rest = ([], rest) := by
  cases rest with
  | nil => rfl
  | cons c cs => rw [Lexeme.digits, h.1]

theorem digits_map {ds : List Nat} (h : ∀ d ∈ ds, d < 10) {rest : List Char}
    (hrest : Lexeme.digits rest = ([], rest)) : Lexeme.digits (ds.map Nat.digitChar ++ rest) = (ds, rest) := by
  induction ds with
  | nil => exact hrest
  | cons d ds ih =>
    have hd := digit?_digitChar (h d List.mem_cons_self)
    rw [List.map_cons, List.cons_append, Lexeme.digits, hd, ih fun e he => h e (List.mem_cons_of_mem _ he)]

theorem wholeDigits_map {d : Nat} {ds : List Nat} (h : ∀ e ∈ d :: ds, e < 10) (hlead : d = 0 → ds = [])
    {rest : List Char} (hrest : Lexeme.digits rest = ([], rest)) :
    Lexeme.wholeDigits ((d :: ds).map Nat.digitChar ++ rest) = .ok (d :: ds, rest) := by
  have hdigits := digits_map h hrest
  unfold Lexeme.wholeDigits
  split
  · rename_i cs heq
    obtain ⟨hd, hcs⟩ := List.cons.inj heq
    obtain rfl := Nat.digitChar_eq_zero.1 hd
    obtain rfl := hlead rfl
    obtain rfl : rest = cs := hcs
    rw [hrest]
  · rw [Lexeme.someDigits, hdigits]

theorem fractionPart_of_delimits {rest : List Char} (h : Delimits rest) :
    Lexeme.fractionPart rest = .ok (none, rest) := by
  unfold Lexeme.fractionPart
  split
  · exact absurd rfl h.2.1
  · rfl

theorem exponentPart_of_delimits {rest : List Char} (h : Delimits rest) :
    Lexeme.exponentPart rest = .ok (none, rest) := by
  cases rest with
  | nil => rfl
  | cons c cs => exact if_neg (not_or.2 h.2.2)

/-- A printed natural number is read back as the integer of its sign. -/
theorem readNumber_toDigits {negative : Bool} {n : Nat} {m : Int}
    (h : -0x8000000000000000 ≤ m ∧ m < 0x10000000000000000)
    (hm : m = if negative then -(n : Int) else n) (hneg : negative → n ≠ 0) {rest : List Char}
    (hrest : Delimits rest) :
    Lexeme.readNumber negative (Nat.toDigits 10 n ++ rest) = .ok (.integer m h, rest) := by
  obtain ⟨d, ds, hdigits, hlt, hvalue, hlead⟩ := toDigits_spec n
  have hbound : n ≤ Numeral.significandBound := by
    cases negative <;> simp only [Bool.false_eq_true, if_true, if_false] at hm <;>
      simp only [Numeral.significandBound] <;> omega
  have habsorb : Numeral.absorb Numeral.significandBound 0 (d :: ds) = (n, []) := by
    rw [absorb_digits (by rwa [hvalue]), hvalue]
  have hread : Lexeme.readNumeral negative (Nat.toDigits 10 n ++ rest)
      = .ok (⟨negative, d :: ds, none, none⟩, rest) := by
    rw [hdigits, Lexeme.readNumeral, wholeDigits_map hlt hlead (digits_of_delimits hrest)]
    simp only [bind, Except.bind, fractionPart_of_delimits hrest, exponentPart_of_delimits hrest]
    rfl
  have hinteger : Numeral.toInteger? ⟨negative, d :: ds, none, none⟩ = some (.integer m h) := by
    simp only [Numeral.toInteger?, habsorb]
    cases negative with
    | false =>
      obtain rfl : m = n := hm
      simp only [Bool.false_eq_true, if_false, Number.ofInt?_eq_some h]
    | true =>
      obtain rfl : m = -n := hm
      simp only [if_true, hneg rfl, if_false, Number.ofInt?_eq_some h]
  simp only [Lexeme.readNumber, hread, bind, Except.bind, Numeral.value, hinteger]
  rfl

theorem ne_of_digit {c d : Char} (h : (Lexeme.digit? c).isSome) (hd : Lexeme.digit? d = none) : c ≠ d := by
  rintro rfl
  rw [hd] at h
  cases h

theorem lexemes_digit {c : Char} (h : (Lexeme.digit? c).isSome) (cs : List Char) :
    lexemes (c :: cs) = (Lexeme.orBroken .broken .number (Lexeme.readNumber false (c :: cs))).1
      :: lexemes (Lexeme.orBroken .broken .number (Lexeme.readNumber false (c :: cs))).2 := by
  have hblank : isBlank c = false := by
    simp [isBlank, ne_of_digit h (rfl : Lexeme.digit? ' ' = none), ne_of_digit h (rfl : Lexeme.digit? '\n' = none),
      ne_of_digit h (rfl : Lexeme.digit? '\t' = none), ne_of_digit h (rfl : Lexeme.digit? '\r' = none)]
  have hread : Lexeme.read c cs = Lexeme.orBroken .broken .number (Lexeme.readNumber false (c :: cs)) := by
    rw [Lexeme.read, if_neg (ne_of_digit h rfl), if_neg (ne_of_digit h rfl), if_neg (ne_of_digit h rfl),
      if_neg (ne_of_digit h rfl), if_neg (ne_of_digit h rfl), if_neg (ne_of_digit h rfl),
      if_neg (ne_of_digit h rfl), if_neg (ne_of_digit h rfl), if_neg (ne_of_digit h rfl),
      if_neg (ne_of_digit h rfl), if_neg (ne_of_digit h rfl), if_pos h]
  rw [lexemes_read hblank, hread]

theorem lexemes_minus (cs : List Char) :
    lexemes ('-' :: cs) = (Lexeme.orBroken .broken .number (Lexeme.readNumber true cs)).1
      :: lexemes (Lexeme.orBroken .broken .number (Lexeme.readNumber true cs)).2 := lexemes_read rfl cs

def minus (negative : Bool) : List Char := if negative then ['-'] else []

/-- A sign and a numeral make one lexeme, which is broken if the numeral is. -/
theorem lexemes_signed {negative : Bool} {c : Char} (h : (Lexeme.digit? c).isSome) (cs : List Char) :
    lexemes (minus negative ++ c :: cs)
      = (Lexeme.orBroken .broken .number (Lexeme.readNumber negative (c :: cs))).1
        :: lexemes (Lexeme.orBroken .broken .number (Lexeme.readNumber negative (c :: cs))).2 := by
  cases negative with
  | true => exact lexemes_minus (c :: cs)
  | false => exact lexemes_digit h cs

/-- A number that is read back wherever no numeral goes on. -/
def Number.ReadsBack (n : Number) : Prop :=
  ∀ rest, Delimits rest → lexemes (Printer.number n ++ rest) = .number n :: lexemes rest

theorem readsBack_integer (n : Int) (h : -0x8000000000000000 ≤ n ∧ n < 0x10000000000000000) :
    (Number.integer n h).ReadsBack := by
  intro rest hrest
  have hm : n = if decide (n < 0) then -(n.natAbs : Int) else n.natAbs := by
    simp only [decide_eq_true_eq]
    split <;> omega
  have hread := readNumber_toDigits h hm (by simp only [decide_eq_true_eq]; omega) hrest
  have hprint : Printer.number (.integer n h) = minus (decide (n < 0)) ++ Nat.toDigits 10 n.natAbs := by
    simp only [Printer.number, Printer.integer, minus, decide_eq_true_eq]
    split <;> rfl
  obtain ⟨d, ds, hdigits, hlt, -, -⟩ := toDigits_spec n.natAbs
  have hd : (Lexeme.digit? (Nat.digitChar d)).isSome := by
    rw [digit?_digitChar (hlt d List.mem_cons_self)]
    rfl
  rw [hdigits, List.map_cons, List.cons_append] at hread
  rw [hprint, hdigits, List.append_assoc, List.map_cons, List.cons_append, lexemes_signed hd, hread]
  rfl

/-! ## Values -/

def Value.lexemes : Value → List Lexeme
  | .null => [.null]
  | .bool b => [.bool b]
  | .number n => [.number n]
  | .string s => [.string s]
  | .array [] => [.beginArray, .endArray]
  | .array (v :: vs) => .beginArray :: (v.lexemes ++ items vs ++ [.endArray])
  | .object [] => [.beginObject, .endObject]
  | .object ((k, v) :: ms) => .beginObject :: .string k :: .colon :: (v.lexemes ++ members ms ++ [.endObject])
where
  items : List Value → List Lexeme
  | [] => []
  | v :: vs => .comma :: (v.lexemes ++ items vs)
  members : List (String × Value) → List Lexeme
  | [] => []
  | (k, v) :: ms => .comma :: .string k :: .colon :: (v.lexemes ++ members ms)

/-! ## Texts -/

/-- What no reader goes on after. -/
def Lexeme.isBroken : Lexeme → Bool
  | .broken _ | .brokenString _ => true
  | _ => false

/-- The lexemes up to the first broken one, whatever its fault: all that a reader gets to see. -/
def upToFault : List Lexeme → List Lexeme
  | [] => []
  | .broken _ :: _ | .brokenString _ :: _ => [.broken (.eof .eofInValue)]
  | l :: ls => l :: upToFault ls

theorem upToFault_append (ls : List Lexeme) {ms ns : List Lexeme} (h : upToFault ms = upToFault ns) :
    upToFault (ls ++ ms) = upToFault (ls ++ ns) := by
  induction ls with
  | nil => exact h
  | cons l ls ih => cases l <;> simp [upToFault, ih]

/-- A text that is spelled with the lexemes `ls`, whatever follows that ends a numeral. -/
def Spells (cs : List Char) (ls : List Lexeme) : Prop :=
  ∀ rest, Delimits rest → upToFault (lexemes (cs ++ rest)) = upToFault (ls ++ lexemes rest)

def Padding (cs : List Char) : Prop := ∀ rest, lexemes (cs ++ rest) = lexemes rest

def Closes (cs : List Char) (last : Lexeme) : Prop :=
  ∀ rest, Delimits (cs ++ rest) ∧ lexemes (cs ++ rest) = last :: lexemes rest

theorem padding_nil : Padding [] := fun _ => rfl

theorem padding_space : Padding [' '] := lexemes_space

theorem padding_newline (level : Nat) : Padding (Printer.newline level) := lexemes_newline level

theorem closes_endArray : Closes [']'] .endArray :=
  fun rest => ⟨delimits_cons (by decide) rest, lexemes_endArray rest⟩

theorem closes_endObject : Closes ['\x7d'] .endObject :=
  fun rest => ⟨delimits_cons (by decide) rest, lexemes_endObject rest⟩

theorem Closes.newline {cs : List Char} {last : Lexeme} (h : Closes cs last) (level : Nat) :
    Closes (Printer.newline level ++ cs) last := by
  intro rest
  refine ⟨delimits_cons (by decide) _, ?_⟩
  rw [List.append_assoc, lexemes_newline, (h rest).2]

theorem spells_of_lexemes {cs : List Char} {ls : List Lexeme}
    (h : ∀ rest, Delimits rest → lexemes (cs ++ rest) = ls ++ lexemes rest) : Spells cs ls :=
  fun rest hrest => congrArg upToFault (h rest hrest)

theorem Spells.cons {c : Char} {l : Lexeme} {cs : List Char} {ls : List Lexeme} (h : Spells cs ls)
    (hc : ∀ rest, lexemes (c :: rest) = l :: lexemes rest) : Spells (c :: cs) (l :: ls) := by
  intro rest hrest
  rw [List.cons_append, hc]
  exact upToFault_append [l] (h rest hrest)

theorem spells_of_closes {cs : List Char} {last : Lexeme} (h : Closes cs last) : Spells cs [last] :=
  spells_of_lexemes fun rest _ => (h rest).2

def separated {α : Type} (pad : List Char) (write : α → List Char) (as : List α) : List Char :=
  as.flatMap fun a => ',' :: (pad ++ write a)

theorem delimits_separated {α : Type} (pad : List Char) (write : α → List Char) (as : List α) {rest : List Char}
    (hrest : Delimits rest) : Delimits (separated pad write as ++ rest) := by
  cases as with
  | nil => exact hrest
  | cons a as => exact delimits_cons (by decide) _

theorem spells_separated {α : Type} {pad : List Char} {write : α → List Char} {spell : α → List Lexeme}
    {as : List α} (hpad : Padding pad) (h : ∀ a ∈ as, Spells (write a) (spell a)) :
    Spells (separated pad write as) (as.flatMap fun a => .comma :: spell a) := by
  intro rest hrest
  induction as with
  | nil => rfl
  | cons a as ih =>
    have ha := h a List.mem_cons_self _ (delimits_separated pad write as hrest)
    have has := ih fun b hb => h b (List.mem_cons_of_mem _ hb)
    have happend : separated pad write (a :: as) ++ rest
        = ',' :: (pad ++ (write a ++ (separated pad write as ++ rest))) := by simp [separated]
    rw [happend, lexemes_comma, hpad, List.flatMap_cons, List.append_assoc]
    exact upToFault_append [.comma] (ha.trans (upToFault_append (spell a) has))

/-- The inside of a container that is not empty, and its closing bracket. -/
theorem spells_content {α : Type} {pad close : List Char} {write : α → List Char} {spell : α → List Lexeme}
    {last : Lexeme} {a : α} {as : List α} (hpad : Padding pad) (h : ∀ b ∈ a :: as, Spells (write b) (spell b))
    (hclose : Closes close last) :
    Spells (pad ++ (write a ++ (separated pad write as ++ close)))
      (spell a ++ ((as.flatMap fun a => .comma :: spell a) ++ [last])) := by
  intro rest _
  obtain ⟨hdelimits, hlast⟩ := hclose rest
  have ha := h a List.mem_cons_self _ (delimits_separated pad write as hdelimits)
  have has := spells_separated hpad (fun b hb => h b (List.mem_cons_of_mem _ hb)) _ hdelimits
  rw [List.append_assoc, List.append_assoc, List.append_assoc, hpad, List.append_assoc, List.append_assoc,
    List.singleton_append, ← hlast]
  exact ha.trans (upToFault_append (spell a) has)

theorem lexemes_items (vs : List Value) : Value.lexemes.items vs = vs.flatMap fun v => .comma :: v.lexemes := by
  induction vs with
  | nil => rfl
  | cons v vs ih => rw [Value.lexemes.items, ih, List.flatMap_cons, List.cons_append]

def memberLexemes (m : String × Value) : List Lexeme := .string m.1 :: .colon :: m.2.lexemes

theorem lexemes_members (ms : Members) :
    Value.lexemes.members ms = ms.flatMap fun m => .comma :: memberLexemes m := by
  induction ms with
  | nil => rfl
  | cons m ms ih =>
    rw [Value.lexemes.members, ih, List.flatMap_cons]
    rfl

theorem lexemes_array_cons (v : Value) (vs : List Value) : (Value.array (v :: vs)).lexemes
    = .beginArray :: (v.lexemes ++ ((vs.flatMap fun v => .comma :: v.lexemes) ++ [.endArray])) := by
  rw [Value.lexemes, lexemes_items, List.append_assoc]

theorem lexemes_object_cons (m : String × Value) (ms : Members) : (Value.object (m :: ms)).lexemes
    = .beginObject :: (memberLexemes m ++ ((ms.flatMap fun m => .comma :: memberLexemes m) ++ [.endObject])) := by
  simp [Value.lexemes, lexemes_members, memberLexemes]

/-- A member in either layout; `gap` stands between the colon and the value. -/
def writeMember (gap : List Char) (write : Value → List Char) (m : String × Value) : List Char :=
  Printer.quoted m.1 ++ ':' :: (gap ++ write m.2)

theorem compact_items (vs : List Value) : Printer.compact.items vs = separated [] Printer.compact vs := by
  induction vs with
  | nil => rfl
  | cons v vs ih =>
    rw [Printer.compact.items, ih]
    rfl

theorem compact_members (ms : Members) :
    Printer.compact.members ms = separated [] (writeMember [] Printer.compact) ms := by
  induction ms with
  | nil => rfl
  | cons m ms ih =>
    rw [Printer.compact.members, ih]
    simp [separated, writeMember]

theorem pretty_items (level : Nat) (vs : List Value) :
    Printer.pretty.items level vs = separated (Printer.newline level) (Printer.pretty level) vs := by
  induction vs with
  | nil => rfl
  | cons v vs ih =>
    rw [Printer.pretty.items, ih]
    simp [separated]

theorem pretty_members (level : Nat) (ms : Members) :
    Printer.pretty.members level ms
      = separated (Printer.newline level) (writeMember [' '] (Printer.pretty level)) ms := by
  induction ms with
  | nil => rfl
  | cons m ms ih =>
    rw [Printer.pretty.members, ih]
    simp [separated, writeMember]

/-! ## Layouts -/

section

variable {σ : Number → Lexeme}

def respell (σ : Number → Lexeme) : Lexeme → Lexeme
  | .number n => σ n
  | l => l

theorem respell_number : respell .number = id := by
  funext l
  cases l <;> rfl

def NumbersSpelled (σ : Number → Lexeme) (v : Value) : Prop :=
  ∀ n, .number n ∈ v.subvalues → Spells (Printer.number n) [σ n]

theorem NumbersSpelled.item {items : List Value} (h : NumbersSpelled σ (.array items)) :
    ∀ v ∈ items, NumbersSpelled σ v :=
  fun v hv n hn => h n (Value.mem_subvalues_array.2 (.inr ⟨v, hv, hn⟩))

theorem NumbersSpelled.member {members : Members} (h : NumbersSpelled σ (.object members)) :
    ∀ m ∈ members, NumbersSpelled σ m.2 :=
  fun m hm n hn => h n (Value.mem_subvalues_object.2 (.inr ⟨m, hm, hn⟩))

theorem spells_member {gap : List Char} {write : Value → List Char} {m : String × Value} (hgap : Padding gap)
    (h : Spells (write m.2) (m.2.lexemes.map (respell σ))) :
    Spells (writeMember gap write m) ((memberLexemes m).map (respell σ)) := by
  intro rest hrest
  have happend : writeMember gap write m ++ rest
      = Printer.quoted m.1 ++ ':' :: (gap ++ (write m.2 ++ rest)) := by simp [writeMember]
  rw [happend, lexemes_quoted, lexemes_colon, hgap]
  exact upToFault_append [.string m.1, .colon] (h rest hrest)

/-- The lexemes of an array, or of an object, with its numbers respelled. -/
theorem map_respell_content {α : Type} (spell : α → List Lexeme) (a : α) (as : List α) (first last : Lexeme)
    (hfirst : respell σ first = first) (hlast : respell σ last = last) :
    (first :: (spell a ++ ((as.flatMap fun a => .comma :: spell a) ++ [last]))).map (respell σ)
      = first :: ((spell a).map (respell σ)
        ++ ((as.flatMap fun a => .comma :: (spell a).map (respell σ)) ++ [last])) := by
  have hcomma : respell σ .comma = .comma := rfl
  simp [List.map_flatMap, hfirst, hlast, hcomma]

theorem spells_compact_respelled {v : Value} (h : NumbersSpelled σ v) :
    Spells (Printer.compact v) (v.lexemes.map (respell σ)) := by
  induction v with
  | null => exact spells_of_lexemes fun rest _ => lexemes_null rest
  | bool b => exact spells_of_lexemes fun rest _ => lexemes_bool b rest
  | number n => exact h n (by simp [Value.subvalues])
  | string s => exact spells_of_lexemes fun rest _ => lexemes_quoted s rest
  | array items ih =>
    have hitem : ∀ v ∈ items, Spells (Printer.compact v) (v.lexemes.map (respell σ)) := fun v hv =>
      ih v hv (h.item v hv)
    cases items with
    | nil => exact (spells_of_closes closes_endArray).cons lexemes_beginArray
    | cons v vs =>
      have hcontent := (spells_content padding_nil hitem closes_endArray).cons lexemes_beginArray
      rw [lexemes_array_cons, map_respell_content _ _ _ _ _ rfl rfl, Printer.compact, compact_items,
        List.append_assoc]
      exact hcontent
  | object members ih =>
    have hmember : ∀ m ∈ members, Spells (writeMember [] Printer.compact m) ((memberLexemes m).map (respell σ)) :=
      fun m hm => spells_member padding_nil (ih m hm (h.member m hm))
    cases members with
    | nil => exact (spells_of_closes closes_endObject).cons lexemes_beginObject
    | cons m ms =>
      have hcontent := (spells_content padding_nil hmember closes_endObject).cons lexemes_beginObject
      rw [lexemes_object_cons, map_respell_content _ _ _ _ _ rfl rfl, Printer.compact, compact_members]
      simpa [writeMember] using hcontent

theorem spells_pretty_respelled {v : Value} (h : NumbersSpelled σ v) (level : Nat) :
    Spells (Printer.pretty level v) (v.lexemes.map (respell σ)) := by
  induction v generalizing level with
  | null => exact spells_of_lexemes fun rest _ => lexemes_null rest
  | bool b => exact spells_of_lexemes fun rest _ => lexemes_bool b rest
  | number n => exact h n (by simp [Value.subvalues])
  | string s => exact spells_of_lexemes fun rest _ => lexemes_quoted s rest
  | array items ih =>
    have hitem : ∀ v ∈ items, Spells (Printer.pretty (level + 1) v) (v.lexemes.map (respell σ)) := fun v hv =>
      ih v hv (h.item v hv) (level + 1)
    cases items with
    | nil => exact (spells_of_closes closes_endArray).cons lexemes_beginArray
    | cons v vs =>
      have hcontent := (spells_content (padding_newline (level + 1)) hitem (closes_endArray.newline level)).cons
        lexemes_beginArray
      rw [lexemes_array_cons, map_respell_content _ _ _ _ _ rfl rfl, Printer.pretty, pretty_items]
      simpa using hcontent
  | object members ih =>
    have hmember : ∀ m ∈ members,
        Spells (writeMember [' '] (Printer.pretty (level + 1)) m) ((memberLexemes m).map (respell σ)) :=
      fun m hm => spells_member padding_space (ih m hm (h.member m hm) (level + 1))
    cases members with
    | nil => exact (spells_of_closes closes_endObject).cons lexemes_beginObject
    | cons m ms =>
      have hcontent := (spells_content (padding_newline (level + 1)) hmember (closes_endObject.newline level)).cons
        lexemes_beginObject
      rw [lexemes_object_cons, map_respell_content _ _ _ _ _ rfl rfl, Printer.pretty, pretty_members]
      simpa [writeMember] using hcontent

end

def Value.NumbersReadBack (v : Value) : Prop := ∀ n, .number n ∈ v.subvalues → n.ReadsBack

theorem Value.NumbersReadBack.spelled {v : Value} (h : v.NumbersReadBack) : NumbersSpelled .number v :=
  fun n hn => spells_of_lexemes (h n hn)

theorem spells_compact {v : Value} (h : v.NumbersReadBack) : Spells (Printer.compact v) v.lexemes := by
  have hspelled := spells_compact_respelled h.spelled
  rwa [respell_number, List.map_id] at hspelled

theorem spells_pretty {v : Value} (h : v.NumbersReadBack) (level : Nat) :
    Spells (Printer.pretty level v) v.lexemes := by
  have hspelled := spells_pretty_respelled h.spelled level
  rwa [respell_number, List.map_id] at hspelled

end ServiceSchema.Json
