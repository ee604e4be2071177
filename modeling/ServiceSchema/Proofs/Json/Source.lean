import Mathlib.Data.List.Basic
import ServiceSchema.Proofs.Json.RoundTrip
import ServiceSchema.Proofs.Json.Token

/-! # Texts and their layout
A text is the tokens of a tree, with blanks before, between and after them. What is read depends on the tokens only:
a text with a broken token is not read, any other one is read as the value of its tree. -/
namespace ServiceSchema.Json

/-- A document as it is written, its layout apart. -/
inductive Source where
  | scalar (token : ScalarToken)
  | array (items : List Source)
  | object (members : List (StringToken × Source))

instance : Inhabited Source := ⟨.array []⟩

namespace Source

/-- Induction over a tree, with the hypothesis for every item and every member. -/
@[elab_as_elim, induction_eliminator]
theorem induction {motive : Source → Prop}
    (scalar : ∀ t, motive (.scalar t))
    (array : ∀ items : List Source, (∀ s ∈ items, motive s) → motive (.array items))
    (object : ∀ members : List (StringToken × Source), (∀ m ∈ members, motive m.2) → motive (.object members)) :
    ∀ s, motive s :=
  @Source.rec motive (fun items => ∀ s ∈ items, motive s) (fun members => ∀ m ∈ members, motive m.2)
    (fun m => motive m.2) scalar array object
    (fun _ h => absurd h List.not_mem_nil)
    (fun _ _ hs ih t ht => (List.mem_cons.1 ht).elim (fun h => h ▸ hs) (ih t))
    (fun _ h => absurd h List.not_mem_nil)
    (fun _ _ hm ih n hn => (List.mem_cons.1 hn).elim (fun h => h ▸ hm) (ih n))
    (fun _ _ hs => hs)

def EachObject (P : List (StringToken × Source) → Prop) : Source → Prop
  | .scalar _ => True
  | .array ss => items P ss
  | .object ms => P ms ∧ members P ms
where
  items (P : List (StringToken × Source) → Prop) : List Source → Prop
  | [] => True
  | s :: ss => s.EachObject P ∧ items P ss
  members (P : List (StringToken × Source) → Prop) : List (StringToken × Source) → Prop
  | [] => True
  | (_, s) :: ms => s.EachObject P ∧ members P ms

theorem eachObject_scalar {P : List (StringToken × Source) → Prop} {t : ScalarToken} : (Source.scalar t).EachObject P :=
  trivial

theorem eachObject_array {P : List (StringToken × Source) → Prop} {ss : List Source} :
    (Source.array ss).EachObject P ↔ ∀ s ∈ ss, s.EachObject P := by
  rw [EachObject]
  induction ss with
  | nil => simp [EachObject.items]
  | cons s ss ih => simp [EachObject.items, ih]

theorem eachObject_object {P : List (StringToken × Source) → Prop} {ms : List (StringToken × Source)} :
    (Source.object ms).EachObject P ↔ P ms ∧ ∀ m ∈ ms, m.2.EachObject P := by
  have hmembers (ns : List (StringToken × Source)) : EachObject.members P ns ↔ ∀ m ∈ ns, m.2.EachObject P := by
    induction ns with
    | nil => simp [EachObject.members]
    | cons m ns ih => simp [EachObject.members, ih]
  rw [EachObject, hmembers]

/-! ## Tokens -/

def tokens : Source → List (List Char)
  | .scalar t => [t.chars]
  | .array [] => [['['], [']']]
  | .array (s :: ss) => ['['] :: (s.tokens ++ items ss ++ [[']']])
  | .object [] => [['\x7b'], ['\x7d']]
  | .object ((k, s) :: ms) => ['\x7b'] :: k.chars :: [':'] :: (s.tokens ++ members ms ++ [['\x7d']])
where
  items : List Source → List (List Char)
  | [] => []
  | s :: ss => [','] :: (s.tokens ++ items ss)
  members : List (StringToken × Source) → List (List Char)
  | [] => []
  | (k, s) :: ms => [','] :: k.chars :: [':'] :: (s.tokens ++ members ms)

def memberTokens (m : StringToken × Source) : List (List Char) := m.1.chars :: [':'] :: m.2.tokens

theorem tokens_items (ss : List Source) : tokens.items ss = ss.flatMap fun s => [','] :: s.tokens := by
  induction ss with
  | nil => rfl
  | cons s ss ih => rw [tokens.items, ih, List.flatMap_cons, List.cons_append]

theorem tokens_members (ms : List (StringToken × Source)) :
    tokens.members ms = ms.flatMap fun m => [','] :: memberTokens m := by
  induction ms with
  | nil => rfl
  | cons m ms ih =>
    rw [tokens.members, ih, List.flatMap_cons]
    rfl

theorem tokens_array_cons (s : Source) (ss : List Source) : (Source.array (s :: ss)).tokens
    = ['['] :: (s.tokens ++ ((ss.flatMap fun s => [','] :: s.tokens) ++ [[']']])) := by
  rw [tokens, tokens_items, List.append_assoc]

theorem tokens_object_cons (m : StringToken × Source) (ms : List (StringToken × Source)) :
    (Source.object (m :: ms)).tokens
      = ['\x7b'] :: (memberTokens m ++ ((ms.flatMap fun m => [','] :: memberTokens m) ++ [['\x7d']])) := by
  simp [tokens, tokens_members, memberTokens]

/-! ## Values -/

def Sound (s : Source) : Prop := ∀ t ∈ s.tokens, (lexemeOf t).isBroken = false

end Source

def StringToken.key? (t : StringToken) : Option String :=
  match lexemeOf t.chars with
  | .string s => some s
  | _ => none

def StringToken.key (t : StringToken) : String := t.key?.getD ""

def ScalarToken.value (t : ScalarToken) : Value := (lexemeOf t.chars).scalar?.getD .null

theorem StringToken.lexemeOf_chars {t : StringToken} (h : (lexemeOf t.chars).isBroken = false) :
    t.key? = some t.key ∧ lexemeOf t.chars = .string t.key := by
  rcases t.readsAs.lexemeOf_cases with ⟨s, hs⟩ | hbroken
  · have hkey : t.key? = some s := by rw [key?, hs]
    have hself : t.key = s := by rw [key, hkey, Option.getD_some]
    exact ⟨hkey.trans (congrArg some hself.symm), hs.trans (congrArg Lexeme.string hself.symm)⟩
  · rw [h] at hbroken
    cases hbroken

theorem ScalarToken.lexemes_value {t : ScalarToken} (h : (lexemeOf t.chars).isBroken = false) :
    t.value.lexemes = [lexemeOf t.chars] := by
  rcases t.readsAs.lexemeOf_cases with ⟨v, hv⟩ | hbroken
  · rw [value, hv, Option.getD_some]
    cases hl : lexemeOf t.chars <;> rw [hl] at hv <;> cases hv <;> rfl
  · rw [h] at hbroken
    cases hbroken

namespace Source

def value : Source → Value
  | .scalar t => t.value
  | .array ss => .array (items ss)
  | .object ms => .object (members ms)
where
  items : List Source → List Value
  | [] => []
  | s :: ss => s.value :: items ss
  members : List (StringToken × Source) → List (String × Value)
  | [] => []
  | (k, s) :: ms => (k.key, s.value) :: members ms

theorem value_items (ss : List Source) : value.items ss = ss.map value := by
  induction ss with
  | nil => rfl
  | cons s ss ih => rw [value.items, ih, List.map_cons]

theorem value_members (ms : List (StringToken × Source)) :
    value.members ms = ms.map fun m => (m.1.key, m.2.value) := by
  induction ms with
  | nil => rfl
  | cons m ms ih => rw [value.members, ih, List.map_cons]

theorem sound_array {ss : List Source} : (Source.array ss).Sound ↔ ∀ s ∈ ss, s.Sound := by
  have hopen : (lexemeOf ['[']).isBroken = false := rfl
  have hclose : (lexemeOf [']']).isBroken = false := rfl
  have hcomma : (lexemeOf [',']).isBroken = false := rfl
  cases ss with
  | nil => simp [Sound, tokens, hopen, hclose]
  | cons s ss =>
    simp only [Sound, tokens_array_cons, List.forall_mem_cons, List.forall_mem_append, List.forall_mem_flatMap,
      hopen, hclose, hcomma, List.not_mem_nil, false_imp_iff, implies_true, true_and, and_true]

theorem sound_object {ms : List (StringToken × Source)} :
    (Source.object ms).Sound ↔ ∀ m ∈ ms, (lexemeOf m.1.chars).isBroken = false ∧ m.2.Sound := by
  have hopen : (lexemeOf ['\x7b']).isBroken = false := rfl
  have hclose : (lexemeOf ['\x7d']).isBroken = false := rfl
  have hcomma : (lexemeOf [',']).isBroken = false := rfl
  have hcolon : (lexemeOf [':']).isBroken = false := rfl
  cases ms with
  | nil => simp [Sound, tokens, hopen, hclose]
  | cons m ms =>
    simp only [Sound, tokens_object_cons, memberTokens, List.cons_append, List.forall_mem_cons,
      List.forall_mem_append, List.forall_mem_flatMap, hopen, hclose, hcomma, hcolon, List.not_mem_nil, false_imp_iff,
      implies_true, true_and, and_true, and_assoc]

theorem lexemes_value {s : Source} (h : s.Sound) : s.tokens.map lexemeOf = s.value.lexemes := by
  induction s with
  | scalar t => exact (ScalarToken.lexemes_value (h _ List.mem_cons_self)).symm
  | array ss ih =>
    have hitem : ∀ s ∈ ss, s.tokens.map lexemeOf = s.value.lexemes := fun s hs => ih s hs (sound_array.1 h s hs)
    cases ss with
    | nil => rfl
    | cons s ss =>
      rw [tokens_array_cons, value, value_items, List.map_cons, List.map_cons, List.map_append, List.map_append,
        List.map_flatMap, lexemes_array_cons, List.flatMap_map, hitem s List.mem_cons_self]
      congr 3
      refine List.flatMap_congr fun t ht => ?_
      rw [List.map_cons, hitem t (List.mem_cons_of_mem _ ht)]
      rfl
  | object ms ih =>
    have hmember : ∀ m ∈ ms, (memberTokens m).map lexemeOf = memberLexemes (m.1.key, m.2.value) := by
      intro m hm
      obtain ⟨hkey, hvalue⟩ := sound_object.1 h m hm
      rw [memberTokens, List.map_cons, List.map_cons, ih m hm hvalue, (StringToken.lexemeOf_chars hkey).2]
      rfl
    cases ms with
    | nil => rfl
    | cons m ms =>
      rw [tokens_object_cons, value, value_members, List.map_cons, List.map_cons, List.map_append, List.map_append,
        List.map_flatMap, lexemes_object_cons, List.flatMap_map, hmember m List.mem_cons_self]
      congr 3
      refine List.flatMap_congr fun n hn => ?_
      rw [List.map_cons, hmember n (List.mem_cons_of_mem _ hn)]
      rfl

end Source

/-! ## Layouts -/

def Blanks (cs : List Char) : Prop := ∀ c ∈ cs, isBlank c

/-- A text of these tokens, with any blanks before, between and after them. -/
inductive Layout : List (List Char) → List Char → Prop where
  | nil {blanks : List Char} (hblanks : Blanks blanks) : Layout [] blanks
  | cons {blanks token text : List Char} {tokens : List (List Char)} (hblanks : Blanks blanks)
      (htext : Layout tokens text) : Layout (token :: tokens) (blanks ++ (token ++ text))

theorem delimits_blanks {blanks rest : List Char} (h : Blanks blanks) (hrest : Delimits rest) :
    Delimits (blanks ++ rest) := by
  cases blanks with
  | nil => exact hrest
  | cons c cs =>
    have hc := h c List.mem_cons_self
    simp only [isBlank, Bool.or_eq_true, decide_eq_true_eq] at hc
    rcases hc with ((rfl | rfl) | rfl) | rfl <;> exact delimits_cons (by decide) _

theorem lexemes_blanks {blanks : List Char} (h : Blanks blanks) (cs : List Char) :
    lexemes (blanks ++ cs) = lexemes cs := by
  induction blanks with
  | nil => rfl
  | cons c blanks ih =>
    rw [List.cons_append, lexemes_blank (h c List.mem_cons_self), ih fun d hd => h d (List.mem_cons_of_mem _ hd)]

theorem Spells.blanks {blanks cs : List Char} {ls : List Lexeme} (h : Spells cs ls) (hblanks : Blanks blanks) :
    Spells (blanks ++ cs) ls := by
  intro rest hrest
  rw [List.append_assoc, lexemes_blanks hblanks]
  exact h rest hrest

theorem Spells.append {cs ds : List Char} {ls ms : List Lexeme} (hcs : Spells cs ls) (hds : Spells ds ms)
    (hdelimits : ∀ rest, Delimits rest → Delimits (ds ++ rest)) : Spells (cs ++ ds) (ls ++ ms) := by
  intro rest hrest
  rw [List.append_assoc, List.append_assoc]
  exact (hcs _ (hdelimits rest hrest)).trans (upToFault_append ls (hds rest hrest))

/-! ## Neighbours -/

def punctuation : List (List Char) := [['['], [']'], ['\x7b'], ['\x7d'], [','], [':']]

theorem lexemes_punctuation {t : List Char} (h : t ∈ punctuation) (rest : List Char) :
    Delimits (t ++ rest) ∧ lexemes (t ++ rest) = lexemeOf t :: lexemes rest := by
  simp only [punctuation, List.mem_cons, List.not_mem_nil, or_false] at h
  rcases h with rfl | rfl | rfl | rfl | rfl | rfl <;> exact ⟨delimits_cons (by decide) rest, lexemes_read rfl rest⟩

def StartsApart (ts : List (List Char)) : Prop := ∀ t ∈ ts.head?, t ∈ punctuation

/-- Of any two neighbours one is punctuation, so that none can be read on into the next. -/
inductive Apart : List (List Char) → Prop where
  | nil : Apart []
  | punctuation {t : List Char} {ts : List (List Char)} (ht : t ∈ punctuation) (h : Apart ts) : Apart (t :: ts)
  | token {t : List Char} {ts : List (List Char)} (ht : Spells t [lexemeOf t]) (hstart : StartsApart ts)
      (h : Apart ts) : Apart (t :: ts)

theorem startsApart_cons {t : List Char} (h : t ∈ punctuation) (ts : List (List Char)) : StartsApart (t :: ts) := by
  rintro u ⟨⟩
  exact h

theorem delimits_layout {ts : List (List Char)} {cs : List Char} (h : Layout ts cs) (hstart : StartsApart ts)
    (rest : List Char) (hrest : Delimits rest) : Delimits (cs ++ rest) := by
  cases h with
  | nil hblanks => exact delimits_blanks hblanks hrest
  | cons hblanks htext =>
    rw [List.append_assoc, List.append_assoc]
    exact delimits_blanks hblanks (lexemes_punctuation (hstart _ rfl) _).1

/-- Tokens that are apart are read one by one. -/
theorem spells_layout {ts : List (List Char)} (h : Apart ts) {cs : List Char} (hcs : Layout ts cs) :
    Spells cs (ts.map lexemeOf) := by
  induction h generalizing cs with
  | nil =>
    cases hcs with
    | nil hblanks => exact spells_of_lexemes fun rest _ => lexemes_blanks hblanks rest
  | punctuation ht _ ih =>
    cases hcs with
    | cons hblanks htext =>
      apply Spells.blanks _ hblanks
      intro rest hrest
      rw [List.append_assoc, (lexemes_punctuation ht _).2]
      exact upToFault_append [_] (ih htext rest hrest)
  | token ht hstart _ ih =>
    cases hcs with
    | cons hblanks htext => exact (ht.append (ih htext) (delimits_layout htext hstart)).blanks hblanks

/-- What separates items and members keeps them apart. -/
theorem apart_separated {α : Type} {tokens : α → List (List Char)} {as : List α}
    (h : ∀ a ∈ as, ∀ ts, Apart ts → StartsApart ts → Apart (tokens a ++ ts)) {ts : List (List Char)} (hts : Apart ts)
    (hstart : StartsApart ts) :
    Apart ((as.flatMap fun a => [','] :: tokens a) ++ ts) ∧
      StartsApart ((as.flatMap fun a => [','] :: tokens a) ++ ts) := by
  induction as with
  | nil => exact ⟨hts, hstart⟩
  | cons a as ih =>
    obtain ⟨hrest, hstarts⟩ := ih fun b hb => h b (List.mem_cons_of_mem _ hb)
    have hcomma : [','] ∈ punctuation := by decide
    rw [List.flatMap_cons, List.cons_append, List.cons_append, List.append_assoc]
    exact ⟨.punctuation hcomma (h a List.mem_cons_self _ hrest hstarts), startsApart_cons hcomma _⟩

namespace Source

theorem apart_append (s : Source) {ts : List (List Char)} (h : Apart ts) (hstart : StartsApart ts) :
    Apart (s.tokens ++ ts) := by
  -- The last token of a tree has a neighbour only in what follows the tree.
  induction s generalizing ts with
  | scalar t => exact .token t.readsAs.spells hstart h
  | array ss ih =>
    have hopen : ['['] ∈ punctuation := by decide
    have hclose : [']'] ∈ punctuation := by decide
    have hend : Apart ([']'] :: ts) := .punctuation hclose h
    cases ss with
    | nil => exact .punctuation hopen hend
    | cons s ss =>
      obtain ⟨hrest, hstarts⟩ := apart_separated (fun t ht _ hus hstart => ih t (List.mem_cons_of_mem _ ht) hus hstart)
        hend (startsApart_cons hclose ts)
      have hcontent := ih s List.mem_cons_self hrest hstarts
      rw [tokens_array_cons]
      simpa using Apart.punctuation hopen hcontent
  | object ms ih =>
    have hopen : ['\x7b'] ∈ punctuation := by decide
    have hclose : ['\x7d'] ∈ punctuation := by decide
    have hcolon : [':'] ∈ punctuation := by decide
    have hend : Apart (['\x7d'] :: ts) := .punctuation hclose h
    have hmember : ∀ m ∈ ms, ∀ us, Apart us → StartsApart us → Apart (memberTokens m ++ us) := by
      intro m hm us hus hstart
      exact .token m.1.readsAs.spells (startsApart_cons hcolon _) (.punctuation hcolon (ih m hm hus hstart))
    cases ms with
    | nil => exact .punctuation hopen hend
    | cons m ms =>
      obtain ⟨hrest, hstarts⟩ := apart_separated (fun n hn => hmember n (List.mem_cons_of_mem _ hn)) hend
        (startsApart_cons hclose ts)
      have hcontent := hmember m List.mem_cons_self _ hrest hstarts
      rw [tokens_object_cons]
      simpa using Apart.punctuation hopen hcontent

/-- The tokens of a tree are read one by one, whatever the layout. -/
theorem spells_tokens (s : Source) {cs : List Char} (h : Layout s.tokens cs) : Spells cs (s.tokens.map lexemeOf) := by
  have happart : Apart s.tokens := by
    rw [← List.append_nil s.tokens]
    exact s.apart_append .nil nofun
  exact spells_layout happart h

/-- A text is read as the value of its tree, if no token is broken and it is not nested too deep. -/
theorem toOption_readChars_of_sound {s : Source} (hs : s.Sound) {cs : List Char} (h : Layout s.tokens cs) :
    (readChars cs).toOption = if s.value.depth ≤ Reader.maxDepth then some s.value.normalize else none := by
  have hspells := s.spells_tokens h
  rw [lexemes_value hs] at hspells
  exact toOption_readChars hspells

theorem toOption_readChars_of_not_sound {s : Source} (hs : ¬ s.Sound) {cs : List Char} (h : Layout s.tokens cs) :
    (readChars cs).toOption = none := by
  simp only [Sound, not_forall, Bool.not_eq_false] at hs
  obtain ⟨t, ht, hbroken⟩ := hs
  rw [toOption_readChars_of_spells (s.spells_tokens h)]
  exact Reader.reads_of_mem_broken (List.mem_map_of_mem ht) hbroken _

end Source
end ServiceSchema.Json
