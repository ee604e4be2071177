import ServiceSchema.Proofs.FieldKind
import ServiceSchema.Proofs.Yaml.Scalar
import ServiceSchema.Yaml.Token

/-! # Scanning a block that is not indented
What the scanner does between the tokens of a mapping that begins in the first column, and how it takes up the
tokens such a mapping is made of: a gap of one blank or one line feed, candidates for a key that are still fresh
or no longer, words, colons and texts in quotes. -/
namespace ServiceSchema.Yaml

variable {x : Char} {cs : List Char} {s t : Scanner}

/-- Where the characters of names are. -/
theorem name_bounds (hx : StartsCIdentifier x ∨ ('0' ≤ x ∧ x ≤ '9')) : 48 ≤ x.toNat ∧ x.toNat ≤ 122 := by
  obtain (⟨hle, hge⟩ | ⟨hle, hge⟩ | rfl) | ⟨hle, hge⟩ := hx
  · exact ⟨Nat.le_trans (by decide) hle, Nat.le_trans hge (by decide)⟩
  · exact ⟨Nat.le_trans (by decide) hle, hge⟩
  · decide
  · exact ⟨hle, Nat.le_trans hge (by decide)⟩

/-! ## Gaps -/

namespace Cursor

variable {c : Cursor} {w : List Char} {p : Char → Bool}

theorem skipByteOrderMark_eq_self (h : ∀ y ∈ c.rest.head?, isByteOrderMark y = false) :
    c.skipByteOrderMark = c := by
  refine if_neg fun hskip => ?_
  obtain ⟨y, hy, hmark⟩ := (Option.any_eq_true _ _).1 hskip.2
  rw [h y hy] at hmark
  cases hmark

theorem skipComment_eq_self (h : ∀ y ∈ c.rest.head?, y ≠ '#') : c.skipComment = c :=
  if_neg fun hhash => h '#' hhash rfl

theorem skipWhile_append (hw : ∀ y ∈ w, p y) (hrest : c.rest = w ++ cs) (h : ∀ y ∈ cs.head?, p y = false) :
    c.skipWhile p = c.skip w.length := by
  have hnone : cs.takeWhile p = [] := by
    cases cs with
    | nil => rfl
    | cons y ys => rw [List.takeWhile_cons_of_neg (by simp [h y rfl])]
  rw [skipWhile, hrest, List.takeWhile_append_of_pos hw, hnone, List.append_nil]

end Cursor

namespace Scanner

/-- A token begins here, or the text ends. -/
def AtToken (cs : List Char) : Prop :=
  ∀ y ∈ cs.head?, isSpace y = false ∧ y ≠ '#' ∧ isByteOrderMark y = false

theorem AtToken.takeBreak?_eq_none (h : AtToken cs) : takeBreak? cs = none := by
  cases cs with
  | nil => rfl
  | cons y ys => exact Yaml.takeBreak?_eq_none (Bool.or_eq_false_iff.1 (h y rfl).1).2 ys

theorem atToken_name (hx : StartsCIdentifier x ∨ ('0' ≤ x ∧ x ≤ '9')) :
    isSpace x = false ∧ x ≠ '#' ∧ isByteOrderMark x = false := by
  have hbounds := name_bounds hx
  have hne (y : Char) (hy : ¬ (48 ≤ y.toNat ∧ y.toNat ≤ 122)) : x ≠ y := by
    rintro rfl
    exact hy hbounds
  have hblank : isBlank x = false := by simp [isBlank, hne ' ' (by decide), hne '\t' (by decide)]
  have hbreak : isBreak x = false := by
    simp [isBreak, hne '\n' (by decide), hne '\r' (by decide)]
    omega
  refine ⟨by rw [isSpace, hblank, hbreak, Bool.or_self], hne '#' (by decide), ?_⟩
  exact beq_false_of_ne (by omega)

theorem atToken_colon {c : Cursor} (h : c.rest = ':' :: cs) : AtToken c.rest := by
  rw [h]
  rintro y ⟨⟩
  decide

/-- What is skipped on a line, tabs or none. -/
theorem AtToken.not_blank (h : AtToken cs) (tabs : Bool) :
    ∀ y ∈ cs.head?, (decide (y = ' ') || (tabs && decide (y = '\t'))) = false := by
  intro y hy
  have hspace := (h y hy).1
  simp only [isSpace, isBlank, Bool.or_eq_false_iff] at hspace
  rw [hspace.1.1, hspace.1.2, Bool.and_false, Bool.or_false]

theorem skipGapWithin_token (h : AtToken s.cursor.rest) (n : Nat) : skipGapWithin n s = s := by
  cases n with
  | zero => rfl
  | succ n =>
    have hblanks (tabs : Bool) := Cursor.skipWhile_append (w := []) (by simp) rfl (h.not_blank tabs)
    rw [skipGapWithin]
    simp only [Cursor.skipByteOrderMark_eq_self fun y hy => (h y hy).2.2, hblanks, List.length_nil,
      Cursor.skip_zero, Cursor.skipComment_eq_self fun y hy => (h y hy).2.1, h.takeBreak?_eq_none]

theorem skipGap_token (h : AtToken s.cursor.rest) : s.skipGap = s := skipGapWithin_token h _

theorem skipGap_blank (hrest : s.cursor.rest = ' ' :: cs) (h : AtToken cs) :
    s.skipGap = { s with cursor := s.cursor.skip 1 } := by
  have hafter : (s.cursor.skip 1).rest = cs := by rw [Cursor.rest_skip, hrest]; rfl
  have hmark : s.cursor.skipByteOrderMark = s.cursor :=
    Cursor.skipByteOrderMark_eq_self (by rw [hrest]; rintro y ⟨⟩; rfl)
  have hblanks (tabs : Bool) := Cursor.skipWhile_append (w := [' ']) (by simp) hrest (h.not_blank tabs)
  have hcomment : (s.cursor.skip 1).skipComment = s.cursor.skip 1 :=
    Cursor.skipComment_eq_self (by rw [hafter]; exact fun y hy => (h y hy).2.1)
  rw [skipGap, skipGapWithin]
  simp only [hmark, hblanks, List.length_singleton, hcomment, hafter, h.takeBreak?_eq_none]

theorem skipGap_newline (hflow : s.inFlow = false) (hrest : s.cursor.rest = '\n' :: cs) (h : AtToken cs) :
    s.skipGap = { s with cursor := s.cursor.nextLine cs, keyAllowed := true } := by
  have hmark : s.cursor.skipByteOrderMark = s.cursor :=
    Cursor.skipByteOrderMark_eq_self (by rw [hrest]; rintro y ⟨⟩; rfl)
  have hblanks (tabs : Bool) : s.cursor.skipWhile
      (fun y => decide (y = ' ') || (tabs && decide (y = '\t'))) = s.cursor :=
    Cursor.skipWhile_append (w := []) (by simp) hrest (by rintro y ⟨⟩; simp)
  have hcomment : s.cursor.skipComment = s.cursor :=
    Cursor.skipComment_eq_self (by rw [hrest]; rintro y ⟨⟩; decide)
  have hbreak : takeBreak? ('\n' :: cs) = some ('\n', cs) := rfl
  rw [skipGap, skipGapWithin]
  simp only [hmark, hblanks, hcomment, hrest, hbreak]
  rw [skipGapWithin_token h, hflow, Bool.not_false, Bool.or_true]

/-! ## Candidates -/

theorem dropStale_eq_self {candidate : Option Candidate} (h : s.candidates = [candidate])
    (hfresh : ∀ c ∈ candidate, s.isStale c = false) : s.dropStale = .ok s := by
  have hs : s = { s with candidates := [candidate] } := by rw [← h]
  cases candidate with
  | none =>
    rw [dropStale, h]
    exact congrArg _ hs.symm
  | some c =>
    rw [dropStale, h]
    simp only [List.mapM_cons, List.mapM_nil, hfresh c rfl]
    exact congrArg _ hs.symm

theorem dropStale_none (h : s.candidates = [none]) : s.dropStale = .ok s :=
  dropStale_eq_self h (by rintro c ⟨⟩)

theorem dropStale_required {c : Candidate} (h : s.candidates = [some c]) (hstale : s.isStale c)
    (hrequired : c.required = true) : s.dropStale = .error (s.missingColon c) := by
  rw [dropStale, h]
  simp only [List.mapM_cons, hstale, hrequired, if_true]
  rfl

theorem dropStale_loose {c : Candidate} (h : s.candidates = [some c]) (hstale : s.isStale c)
    (hrequired : c.required = false) : s.dropStale = .ok { s with candidates := [none] } := by
  rw [dropStale, h]
  simp only [List.mapM_cons, List.mapM_nil, hstale, hrequired, if_true]
  rfl

theorem closeBlocks_outermost (hflow : s.inFlow = false) (h : ∀ k ∈ s.indents, k = 0) (column : Nat) :
    s.closeBlocks (some column) = s := by
  obtain ⟨cursor, tokens, candidates, indents, allowed⟩ := s
  cases indents with
  | nil => simp [closeBlocks, hflow]
  | cons k ks =>
    obtain rfl := h k List.mem_cons_self
    simp [closeBlocks, hflow]

/-! ## Steps -/

/-- A step in a block whose collections are not indented: the gap, and then the token. -/
theorem step_next (hskip : s.skipGap = t) (hflow : t.inFlow = false) (hfresh : t.dropStale = .ok t)
    (hindents : ∀ k ∈ t.indents, k = 0) (hrest : t.cursor.rest = x :: cs) :
    s.step = t.next x cs >>= dropStale := by
  rw [step, hskip, hfresh]
  simp only [bind, Except.bind]
  rw [closeBlocks_outermost hflow hindents, hrest]

theorem next_letter (hx : StartsCIdentifier x) (hrest : s.cursor.rest = x :: cs) :
    s.next x cs = s.plainScalar := by
  have hne : ∀ y ∈ "-.?:,[]\x7b\x7d#&*!|>'\"%@\x60".toList, x ≠ y := by
    have hindicators : "-.?:,[]\x7b\x7d#&*!|>'\"%@\x60".toList.all fun y => !(y.isAlpha || y = '_') := by decide
    rintro y hy rfl
    have hnot := List.all_eq_true.1 hindicators x hy
    rw [startsCIdentifier_iff.2 hx] at hnot
    cases hnot
  simp at hne
  have hbegins : beginsPlain s.inFlow x cs := by simp [beginsPlain, (atToken_name (.inl hx)).1, hne]
  simp [next, Cursor.atIndicator_of_head hrest hne.1 hne.2.1, hbegins, hne]

theorem next_colon (hcolumn : 0 < s.cursor.column) (hend : wordEnds cs) : s.next ':' cs = s.value := by
  simp [next, Cursor.atIndicator_of_column hcolumn, hend]

theorem next_quote (hcolumn : 0 < s.cursor.column) : s.next '"' cs = s.quotedScalar true := by
  simp [next, Cursor.atIndicator_of_column hcolumn]

@[simp] theorem cursor_allowKey (s : Scanner) (allowed : Bool) : (s.allowKey allowed).cursor = s.cursor := rfl

@[simp] theorem inFlow_allowKey (s : Scanner) (allowed : Bool) : (s.allowKey allowed).inFlow = s.inFlow := rfl

@[simp] theorem floor_allowKey (s : Scanner) (allowed : Bool) : (s.allowKey allowed).floor = s.floor := rfl

theorem plainScalar_eq {text : List Char} {broken : Bool} {after : Cursor} (hsave : s.saveCandidate = .ok t)
    (hplain : Scalar.plain t.inFlow t.floor t.cursor = .ok (text, broken, after)) :
    s.plainScalar = .ok ((t.allowKey broken).scalarToken text true after) := by
  rw [plainScalar, hsave]
  simp only [bind, Except.bind, cursor_allowKey, inFlow_allowKey, floor_allowKey, hplain]
  rfl

theorem quotedScalar_eq {text : List Char} {double : Bool} {after : Cursor} (hsave : s.saveCandidate = .ok t)
    (hquoted : Scalar.quoted double t.cursor = .ok (text, after)) :
    s.quotedScalar double = .ok ((t.allowKey false).scalarToken text false after) := by
  rw [quotedScalar, hsave]
  simp only [bind, Except.bind, cursor_allowKey, hquoted]
  rfl

/-! ## Runs -/

theorem run_step (h : s.step = .ok t) (hgoing : t.isFinished = false) (n : Nat) : run (n + 1) s = run n t := by
  rw [run, h]
  simp only [hgoing]
  rfl

theorem settled_of_none (h : s.candidates = [none]) : s.settled = s.tokens.reverse := by
  have htake : s.tokens.reverse.take s.tokens.length = s.tokens.reverse := List.take_of_length_le (by simp)
  simp [settled, h, htake]

theorem finish_outermost (hcandidates : s.candidates = [none]) (hindents : s.indents = [0]) :
    ∃ cursor mark, s.finish = .ok ⟨cursor, ⟨.streamEnd, mark⟩ :: ⟨.blockEnd, mark⟩ :: s.tokens, [none], [], false⟩ := by
  obtain ⟨cursor, tokens, candidates, indents, allowed⟩ := s
  obtain rfl : candidates = [none] := hcandidates
  obtain rfl : indents = [0] := hindents
  rw [finish]
  split <;> exact ⟨_, _, rfl⟩

/-- A mapping that is not indented is closed where the text ends. -/
theorem run_end (hskip : s.skipGap = t) (hrest : t.cursor.rest = []) (hcandidates : t.candidates = [none])
    (hindents : t.indents = [0]) (n : Nat) : ∃ mark, run (n + 1) s =
      ⟨t.tokens.reverse ++ [⟨.blockEnd, mark⟩, ⟨.streamEnd, mark⟩], none⟩ := by
  have hflow : t.inFlow = false := by rw [inFlow, hcandidates]; rfl
  obtain ⟨cursor, mark, hfinish⟩ := finish_outermost hcandidates hindents
  have hstep : s.step = .ok ⟨cursor, ⟨.streamEnd, mark⟩ :: ⟨.blockEnd, mark⟩ :: t.tokens, [none], [], false⟩ := by
    rw [step, hskip, dropStale_none hcandidates]
    simp only [bind, Except.bind]
    rw [closeBlocks_outermost hflow (by simp [hindents]), hrest]
    simp only [hfinish]
    exact dropStale_none rfl
  refine ⟨mark, ?_⟩
  rw [run, hstep]
  simp [isFinished, settled_of_none]

end Scanner

theorem scan_eq_run (h : ∀ y ∈ cs, isAllowed y) : scan cs = Scanner.run (cs.length + 1) (Scanner.start cs) := by
  have htake : cs.takeWhile isAllowed = cs := by
    rw [← List.append_nil cs, List.takeWhile_append_of_pos h, List.takeWhile_nil]
  rw [scan, htake]
  simp

end ServiceSchema.Yaml
