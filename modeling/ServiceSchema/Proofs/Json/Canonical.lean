import Mathlib.Tactic.Choose
import ServiceSchema.Proofs.Json.PrintedDouble
import ServiceSchema.Proofs.Json.Source
import ServiceSchema.Proofs.Text.Utf8

/-! # The order of printed keys
The pretty text of a document is a layout of a tree that writes the document, member by member, and in which the keys
of every object strictly increase, by the bytes of the strings they spell. -/
namespace ServiceSchema.Json

/-! ## Tokens of printed scalars -/

theorem stringContent_escape (c : Char) {cs : List Char} (h : StringContent cs) :
    StringContent (Printer.escape c ++ cs) := by
  have hhex (n : Nat) : (Lexeme.hexDigit? (hexChar n)).isSome := by
    have hlt : n % 16 < 16 := Nat.mod_lt n (by decide)
    rw [hexChar]
    revert hlt
    generalize n % 16 = m
    revert m
    decide
  unfold Printer.escape
  split
  · exact .escape (by decide) h
  split
  · exact .escape (by decide) h
  split
  · exact .escape (by decide) h
  split
  · exact .escape (by decide) h
  split
  · exact .escape (by decide) h
  split
  · exact .escape (by decide) h
  split
  · exact .escape (by decide) h
  split
  · exact .unicode rfl rfl (hhex _) (hhex _) h
  · exact .plain ‹_› ‹_› ‹_› h

theorem stringContent_escaped (cs : List Char) : StringContent (cs.flatMap Printer.escape) := by
  induction cs with
  | nil => exact .nil
  | cons c cs ih => exact stringContent_escape c ih

def quotedToken (s : String) : StringToken := ⟨s.toList.flatMap Printer.escape, stringContent_escaped s.toList⟩

theorem chars_quotedToken (s : String) : (quotedToken s).chars = Printer.quoted s := rfl

@[simp] theorem key?_quotedToken (s : String) : (quotedToken s).key? = some s := by
  have hlexeme : lexemeOf (Printer.quoted s) = .string s := lexemeOf_of_lexemes (lexemes_quoted s [])
  rw [StringToken.key?, chars_quotedToken, hlexeme]

@[simp] theorem key_quotedToken (s : String) : (quotedToken s).key = s := by
  rw [StringToken.key, key?_quotedToken, Option.getD_some]

/-- A numeral stands for an integer by its digits, and for a double by a decimal that rounds to it. -/
def Numeral.Names (x : Numeral) : Number → Prop
  | .integer n _ =>
    x.fraction = none ∧ x.exponent = none ∧ x.negative = decide (n < 0) ∧ x.allDigits = n.natAbs
  | .double y => (x.fraction.isSome ∨ x.exponent.isSome) ∧
    Double.nearest x.negative (x.allDigits * 10 ^ x.power.toNat * Double.one) (10 ^ (-x.power).toNat) = some y

/-- Every number is printed as a numeral for it. -/
theorem exists_numberToken (n : Number) : ∃ t : NumberToken, t.numeral.Names n ∧ t.chars = Printer.number n := by
  cases n with
  | integer n h =>
    obtain ⟨d, ds, hdigits, hlt, hvalue, hlead⟩ := toDigits_spec n.natAbs
    refine ⟨⟨⟨decide (n < 0), d :: ds, none, none⟩, ⟨⟨d, ds, rfl, hlead, hlt⟩, nofun, nofun⟩, false, false⟩, ?_, ?_⟩
    · refine ⟨rfl, rfl, rfl, ?_⟩
      rw [Numeral.allDigits, Option.getD_none, List.append_nil, hvalue]
    · simp only [NumberToken.chars, NumberToken.exponentChars, Numeral.fractionChars, Option.elim_none,
        List.append_nil, ← hdigits, Printer.number, Printer.integer, minus, decide_eq_true_eq]
      split <;> rfl
  | double x =>
    obtain ⟨cs, m, hprint, hnegative, hspelled⟩ := x.exists_numeral
    refine ⟨⟨m, hspelled.wellFormed, false, true⟩, ⟨hspelled.kind, ?_⟩, ?_⟩
    · rw [hspelled.allDigits, hspelled.power, hnegative]
      exact Double.nearest_of_contains (Nat.pow_pos (by decide)) x.holds_printed x.negative
    · have hexponent : NumberToken.exponentChars ⟨m, hspelled.wellFormed, false, true⟩
          = Numeral.exponentChars m.exponent := by
        simp only [NumberToken.exponentChars, Numeral.exponentChars]
        cases m.exponent with
        | none => rfl
        | some e => cases he : e.negative <;> simp [NumberToken.exponentSign, he]
      rw [NumberToken.chars, hexponent, ← Numeral.spelling, hspelled.spelling, hnegative, Printer.number, hprint]

/-! ## Layouts of printed containers -/

theorem blanks_nil : Blanks [] := fun _ h => absurd h List.not_mem_nil

theorem layout_nil : Layout [] [] := .nil blanks_nil

theorem Layout.token (t : List Char) {cs : List Char} {ts : List (List Char)} (h : Layout ts cs) :
    Layout (t :: ts) (t ++ cs) := .cons blanks_nil h

theorem layout_single (t : List Char) : Layout [t] t := by
  have h := layout_nil.token t
  rwa [List.append_nil] at h

theorem Layout.blanks {blanks cs : List Char} {ts : List (List Char)} (h : Layout ts cs) (hblanks : Blanks blanks) :
    Layout ts (blanks ++ cs) := by
  have happend {ds : List Char} (hds : Blanks ds) : Blanks (blanks ++ ds) :=
    List.forall_mem_append.2 ⟨hblanks, hds⟩
  cases h with
  | nil h => exact .nil (happend h)
  | cons h htext =>
    rw [← List.append_assoc]
    exact .cons (happend h) htext

theorem Layout.append {cs ds : List Char} {ts us : List (List Char)} (h : Layout ts cs) (hds : Layout us ds) :
    Layout (ts ++ us) (cs ++ ds) := by
  induction h with
  | nil hblanks => exact hds.blanks hblanks
  | cons hblanks _ ih =>
    rw [List.append_assoc, List.append_assoc]
    exact .cons hblanks ih

theorem blanks_space : Blanks [' '] := by
  intro c hc
  rw [List.mem_singleton.1 hc]
  rfl

theorem blanks_newline (level : Nat) : Blanks (Printer.newline level) := by
  intro c hc
  rcases List.mem_cons.1 hc with rfl | hc
  · rfl
  · rw [List.eq_of_mem_replicate hc]
    rfl

theorem layout_separated {α : Type} {tokens : α → List (List Char)} {write : α → List Char} {pad : List Char}
    {as : List α} (hpad : Blanks pad) (h : ∀ a ∈ as, Layout (tokens a) (write a)) :
    Layout (as.flatMap fun a => [','] :: tokens a) (separated pad write as) := by
  induction as with
  | nil => exact layout_nil
  | cons a as ih =>
    have ha := (h a List.mem_cons_self).blanks hpad
    exact (ha.token [',']).append (ih fun b hb => h b (List.mem_cons_of_mem _ hb))

/-- The inside of a container that is not empty, and its brackets. -/
theorem layout_content {α : Type} {tokens : α → List (List Char)} {write : α → List Char} {a : α} {as : List α}
    (h : ∀ b ∈ a :: as, Layout (tokens b) (write b)) {pad dedent : List Char} (hpad : Blanks pad)
    (hdedent : Blanks dedent) (first last : List Char) :
    Layout (first :: (tokens a ++ ((as.flatMap fun b => [','] :: tokens b) ++ [last])))
      (first ++ (pad ++ (write a ++ (separated pad write as ++ (dedent ++ last))))) := by
  have hlast := (layout_single last).blanks hdedent
  have hrest := (layout_separated hpad fun b hb => h b (List.mem_cons_of_mem _ hb)).append hlast
  exact (((h a List.mem_cons_self).append hrest).blanks hpad).token first

namespace Source

/-- In every object each key comes before the next, in the order of the bytes of their strings. -/
def Ordered : Source → Prop :=
  EachObject fun ms => ms.Pairwise fun m n => ∃ a b, m.1.key? = some a ∧ n.1.key? = some b ∧
    Utf8.encode a.toList < Utf8.encode b.toList

/-- A tree writes a document item by item and member by member, in the order that they have there. The reader is not
asked for the numbers: it can miss a double by a little. -/
inductive Writes : Source → Value → Prop where
  | null : Writes (.scalar .null) .null
  | bool (b : Bool) : Writes (.scalar (.bool b)) (.bool b)
  | number {t : NumberToken} {n : Number} (h : t.numeral.Names n) : Writes (.scalar (.number t)) (.number n)
  | string {t : StringToken} {s : String} (h : t.key? = some s) : Writes (.scalar (.string t)) (.string s)
  | array {items : List Value} {source : Value → Source} (h : ∀ v ∈ items, Writes (source v) v) :
      Writes (.array (items.map source)) (.array items)
  | object {members : Members} {key : String × Value → StringToken} {source : String × Value → Source}
      (hkeys : ∀ m ∈ members, (key m).key? = some m.1) (h : ∀ m ∈ members, Writes (source m) m.2) :
      Writes (.object (members.map fun m => (key m, source m))) (.object members)

/-- The pretty text of a document lays out a tree that writes it, with its keys in order. -/
theorem exists_of_sorted {v : Value} (h : v.Sorted) :
    ∃ s : Source, s.Ordered ∧ s.Writes v ∧ ∀ level, Layout s.tokens (Printer.pretty level v) := by
  induction v with
  | null => exact ⟨.scalar .null, trivial, .null, fun _ => layout_single _⟩
  | bool b => exact ⟨.scalar (.bool b), trivial, .bool b, fun _ => layout_single (ScalarToken.bool b).chars⟩
  | number n =>
    obtain ⟨t, hnames, ht⟩ := exists_numberToken n
    refine ⟨.scalar (.number t), trivial, .number hnames, fun _ => ?_⟩
    rw [Printer.pretty, ← ht]
    exact layout_single _
  | string s =>
    exact ⟨.scalar (.string (quotedToken s)), trivial, .string (key?_quotedToken s), fun _ => layout_single _⟩
  | array items ih =>
    have hitem : ∀ v ∈ items, ∃ s : Source, s.Ordered ∧ s.Writes v ∧
        ∀ level, Layout s.tokens (Printer.pretty level v) :=
      fun v hv => ih v hv (Value.sorted_array.1 h v hv)
    choose! source hordered hwrites hlayout using hitem
    refine ⟨.array (items.map source), ?_, .array hwrites, fun level => ?_⟩
    · rw [Ordered, eachObject_array, List.forall_mem_map]
      exact hordered
    · cases items with
      | nil => exact (layout_single [']']).token ['[']
      | cons v vs =>
        have hcontent := layout_content (fun w hw => hlayout w hw (level + 1)) (blanks_newline (level + 1))
          (blanks_newline level) ['['] [']']
        rw [List.map_cons, tokens_array_cons, List.flatMap_map, Printer.pretty, pretty_items]
        simpa using hcontent
  | object members ih =>
    obtain ⟨hkeys, hvalues⟩ := Value.sorted_object.1 h
    have hmember : ∀ m ∈ members, ∃ s : Source, s.Ordered ∧ s.Writes m.2 ∧
        ∀ level, Layout s.tokens (Printer.pretty level m.2) :=
      fun m hm => ih m hm (hvalues m hm)
    choose! source hordered hwrites hlayout using hmember
    refine ⟨.object (members.map fun m => (quotedToken m.1, source m)), ?_, ?_, fun level => ?_⟩
    · rw [Ordered, eachObject_object, List.forall_mem_map]
      refine ⟨List.pairwise_map.2 (hkeys.imp fun {m n} hlt => ?_), hordered⟩
      exact ⟨m.1, n.1, key?_quotedToken _, key?_quotedToken _, Utf8.lt_iff_encode_lt.1 hlt⟩
    · exact .object (fun m _ => key?_quotedToken m.1) hwrites
    · have hwrite : ∀ m ∈ members, Layout (memberTokens (quotedToken m.1, source m))
          (writeMember [' '] (Printer.pretty (level + 1)) m) := by
        intro m hm
        exact (((hlayout m hm (level + 1)).blanks blanks_space).token [':']).token (Printer.quoted m.1)
      cases members with
      | nil => exact (layout_single ['\x7d']).token ['\x7b']
      | cons m ms =>
        have hcontent := layout_content hwrite (blanks_newline (level + 1)) (blanks_newline level) ['\x7b'] ['\x7d']
        rw [List.map_cons, tokens_object_cons, List.flatMap_map, Printer.pretty, pretty_members]
        simpa [writeMember] using hcontent

end Source
end ServiceSchema.Json
