import ServiceSchema.Proofs.Yaml.Token

/-! # Tokens of lines
A text of lines that each give a text in double quotes to a key is scanned in three steps a line: the key, the
colon, the value. That the word was a key is known when its colon comes, if it comes within 1024 bytes; a line
with a longer key ends the tokens. -/
namespace ServiceSchema.Yaml
open ServiceSchema.Text (byteLength)

variable {rest : List Char} {i n : Nat} {s : Scanner} {before : List Token} {indents : List Nat}

/-! ## Lines -/

/-- A line that gives a text in double quotes to a key. -/
structure Line where
  key : String
  value : String
  named : CIdentifier key
  verbatim : Scalar.IsVerbatim value.toList
  allowed : ∀ y ∈ value.toList, isAllowed y

namespace Line

def spelled (l : Line) (rest : List Char) : List Char :=
  l.key.toList ++ ':' :: ' ' :: '"' :: (l.value.toList ++ '"' :: rest)

/-- Is the key near enough to the colon? -/
def isShort (l : Line) : Bool := byteLength l.key.toList ≤ 1024

theorem key_length_pos (l : Line) : 0 < l.key.toList.length := by
  obtain ⟨y, ys, hkey, -⟩ := l.named
  rw [hkey]
  exact Nat.succ_pos _

theorem key_chars (l : Line) : ∀ y ∈ l.key.toList, StartsCIdentifier y ∨ ('0' ≤ y ∧ y ≤ '9') := by
  obtain ⟨y, ys, hkey, hy, hys⟩ := l.named
  rw [hkey]
  exact List.forall_mem_cons.2 ⟨.inl hy, hys⟩

def tokens (i : Nat) (l : Line) : List Token :=
  [⟨.key, ⟨i, 0⟩⟩, ⟨.scalar l.key true, ⟨i, 0⟩⟩, ⟨.value, ⟨i, l.key.toList.length⟩⟩,
    ⟨.scalar l.value false, ⟨i, l.key.toList.length + 2⟩⟩]

/-- What follows the first line: the other ones, each after a line feed, and a line feed behind the last if the
text ends with one. -/
def following (ended : Bool) : List Line → List Char
  | [] => if ended then ['\n'] else []
  | l :: ls => '\n' :: l.spelled (following ended ls)

def allTokens : Nat → List Line → List Token
  | _, [] => []
  | i, l :: ls => l.tokens i ++ allTokens (i + 1) ls

end Line

namespace Scanner

/-! ## Steps -/

variable {l : Line}

def within (l : Line) (i : Nat) (rest : List Char) (n : Nat) : Cursor := (⟨l.spelled rest, ⟨i, 0⟩, 0⟩ : Cursor).skip n

@[simp] theorem mark_within : (within l i rest n).mark = ⟨i, n⟩ := by simp [within, Cursor.skip]

@[simp] theorem column_within : (within l i rest n).column = n := by rw [Cursor.column, mark_within]

@[simp] theorem skip_within (k : Nat) : (within l i rest n).skip k = within l i rest (n + k) :=
  Cursor.skip_skip _ n k

theorem rest_within_key : (within l i rest l.key.toList.length).rest =
    ':' :: ' ' :: '"' :: (l.value.toList ++ '"' :: rest) :=
  Cursor.rest_skip_append rfl

theorem rest_within_colon : (within l i rest (l.key.toList.length + 1)).rest =
    ' ' :: '"' :: (l.value.toList ++ '"' :: rest) := by
  rw [← skip_within, Cursor.rest_skip, rest_within_key]
  rfl

theorem rest_within_blank : (within l i rest (l.key.toList.length + 2)).rest =
    '"' :: (l.value.toList ++ '"' :: rest) := by
  rw [← skip_within, Cursor.rest_skip, rest_within_key]
  rfl

theorem rest_within_value : (within l i rest (l.key.toList.length + 2 + (l.value.toList.length + 2))).rest = rest := by
  rw [← skip_within, Cursor.rest_skip, rest_within_blank]
  simp

/-- In front of line `i`, where a key may begin. -/
def atLine (l : Line) (i : Nat) (rest : List Char) (before : List Token) (indents : List Nat) : Scanner :=
  ⟨within l i rest 0, before, [none], indents, true⟩

/-- The word at the beginning of line `i` as a key. -/
def candidate (i : Nat) (before : List Token) (indents : List Nat) : Candidate :=
  ⟨before.length, indents.head? = some 0, ⟨i, 0⟩, 0⟩

def afterWord (l : Line) (i : Nat) (rest : List Char) (before : List Token) (indents : List Nat) : Scanner :=
  ⟨within l i rest l.key.toList.length, ⟨.scalar l.key true, ⟨i, 0⟩⟩ :: before, [some (candidate i before indents)],
    indents, false⟩

/-- Behind the colon, when the mapping is open. -/
def afterColon (l : Line) (i : Nat) (rest : List Char) (before : List Token) : Scanner :=
  ⟨within l i rest (l.key.toList.length + 1), ⟨.value, ⟨i, l.key.toList.length⟩⟩ :: ⟨.scalar l.key true, ⟨i, 0⟩⟩ ::
    ⟨.key, ⟨i, 0⟩⟩ :: before, [none], [0], false⟩

def atValue (l : Line) (i : Nat) (rest : List Char) (before : List Token) : Scanner :=
  { afterColon l i rest before with cursor := within l i rest (l.key.toList.length + 2) }

def afterLine (l : Line) (i : Nat) (rest : List Char) (before : List Token) : Scanner :=
  ⟨within l i rest (l.key.toList.length + 2 + (l.value.toList.length + 2)), (l.tokens i).reverse ++ before, [none], [0],
    false⟩

theorem atToken_spelled (l : Line) (rest : List Char) : AtToken (l.spelled rest) := by
  obtain ⟨y, ys, hkey, hy, -⟩ := l.named
  rw [Line.spelled, hkey]
  rintro z ⟨⟩
  exact atToken_name (.inl hy)

theorem plainScalar_line : (atLine l i rest before indents).plainScalar = .ok (afterWord l i rest before indents) := by
  obtain ⟨y, ys, hkey, hy, -⟩ := l.named
  have hword : ∀ z ∈ l.key.toList, isSpace z = false ∧ z ≠ ':' := by
    intro z hz
    refine ⟨(atToken_name (l.key_chars z hz)).1, ?_⟩
    rintro rfl
    exact absurd (continuesCIdentifier_iff.2 (l.key_chars _ hz)) (by decide)
  have hfirst : ∃ z, l.key.toList.head? = some z ∧ z ≠ '#' ∧ z ≠ '-' ∧ z ≠ '.' := by
    refine ⟨y, by rw [hkey]; rfl, ?_, ?_, ?_⟩ <;>
      (rintro rfl; exact absurd (startsCIdentifier_iff.2 hy) (by decide))
  have hplain (indent : Nat) := Scalar.plain_colon indent (c := within l i rest 0) hword hfirst rfl rfl
  have hsave : (atLine l i rest before indents).saveCandidate =
      .ok { atLine l i rest before indents with candidates := [some (candidate i before indents)] } := rfl
  rw [plainScalar_eq hsave (hplain _), scalarToken, String.ofList_toList, skip_within, Nat.zero_add]
  rfl

theorem isStale_afterWord :
    (afterWord l i rest before indents).isStale (candidate i before indents) = !l.isShort := by
  have hoffset : (within l i rest l.key.toList.length).offset = byteLength l.key.toList := by
    have htake : (l.spelled rest).take l.key.toList.length = l.key.toList := List.take_left
    simp [within, Cursor.skip, htake]
  have hlong : decide (1024 < byteLength l.key.toList) = !l.isShort := by
    rw [Line.isShort, ← decide_not]
    exact decide_eq_decide.2 Nat.not_le.symm
  simp [isStale, afterWord, candidate, mark, hoffset, hlong]

/-- The first key opens the mapping. -/
theorem value_first : (afterWord l i rest before []).value =
    .ok (afterColon l i rest (⟨.blockMappingStart, ⟨i, 0⟩⟩ :: before)) := by
  have hlater : before.length + 1 + 1 - before.length = 2 := by omega
  simp [value, afterWord, insert, candidate, openBlock, inFlow, floor, hlater, allowKey, take, push, mark, afterColon]

theorem value_later : (afterWord l i rest before [0]).value = .ok (afterColon l i rest before) := by
  simp [value, afterWord, insert, candidate, openBlock, inFlow, floor, allowKey, take, push, mark, afterColon]

theorem quotedScalar_line : (atValue l i rest before).quotedScalar true = .ok (afterLine l i rest before) := by
  have hrest : (atValue l i rest before).cursor.rest = _ := rest_within_blank
  have hquoted := Scalar.quoted_verbatim l.verbatim hrest
  rw [quotedScalar_eq rfl hquoted, scalarToken, String.ofList_toList]
  simp [afterLine, atValue, afterColon, Line.tokens, allowKey, push, mark]

theorem step_word (hskip : s.skipGap = atLine l i rest before indents) (hindents : ∀ k ∈ indents, k = 0) :
    s.step = (afterWord l i rest before indents).dropStale := by
  obtain ⟨y, ys, hkey, hy, -⟩ := l.named
  have hrest : (within l i rest 0).rest = y :: (ys ++ ':' :: ' ' :: '"' :: (l.value.toList ++ '"' :: rest)) := by
    show l.key.toList ++ _ = _
    rw [hkey]
    rfl
  rw [step_next hskip rfl (dropStale_none rfl) hindents hrest, next_letter hy hrest, plainScalar_line]
  rfl

theorem dropStale_afterWord (hshort : l.isShort) :
    (afterWord l i rest before indents).dropStale = .ok (afterWord l i rest before indents) := by
  refine dropStale_eq_self rfl ?_
  rintro c ⟨⟩
  rw [isStale_afterWord, hshort]
  rfl

theorem step_word_short (hskip : s.skipGap = atLine l i rest before indents) (hindents : ∀ k ∈ indents, k = 0)
    (hshort : l.isShort) : s.step = .ok (afterWord l i rest before indents) := by
  rw [step_word hskip hindents, dropStale_afterWord hshort]

theorem step_colon {t : Scanner} (hshort : l.isShort) (hindents : ∀ k ∈ indents, k = 0)
    (hvalue : (afterWord l i rest before indents).value = .ok t) (ht : t.candidates = [none]) :
    (afterWord l i rest before indents).step = .ok t := by
  rw [step_next (skipGap_token (atToken_colon rest_within_key)) rfl (dropStale_afterWord hshort) hindents
    rest_within_key, next_colon (by simpa [afterWord] using l.key_length_pos) rfl, hvalue]
  exact dropStale_none ht

theorem step_value : (afterColon l i rest before).step = .ok (afterLine l i rest before) := by
  have hskip : (afterColon l i rest before).skipGap = atValue l i rest before := by
    rw [skipGap_blank rest_within_colon (by rintro y ⟨⟩; decide)]
    simp [atValue, afterColon]
  rw [step_next hskip rfl (dropStale_none rfl) (by simp [atValue, afterColon]) rest_within_blank,
    next_quote (by simp [atValue]), quotedScalar_line]
  exact dropStale_none (s := afterLine l i rest before) rfl

/-! ## Runs -/

theorem run_first (hskip : s.skipGap = atLine l i rest before []) (hshort : l.isShort) (n : Nat) :
    run (n + 3) s = run n (afterLine l i rest (⟨.blockMappingStart, ⟨i, 0⟩⟩ :: before)) := by
  rw [run_step (step_word_short hskip (by simp) hshort) rfl, run_step (step_colon hshort (by simp) value_first rfl) rfl,
    run_step step_value rfl]

theorem run_later (hskip : s.skipGap = atLine l i rest before [0]) (hshort : l.isShort) (n : Nat) :
    run (n + 3) s = run n (afterLine l i rest before) := by
  rw [run_step (step_word_short hskip (by simp) hshort) rfl, run_step (step_colon hshort (by simp) value_later rfl) rfl,
    run_step step_value rfl]

/-- A word that is no key any more leaves its colon without one. -/
theorem run_long_first (hskip : s.skipGap = atLine l i rest before []) (hlong : l.isShort = false) (n : Nat) :
    ∃ fault, run (n + 2) s = ⟨before.reverse ++ [⟨.scalar l.key true, ⟨i, 0⟩⟩], some fault⟩ := by
  have hstale : (afterWord l i rest before []).isStale (candidate i before []) := by rw [isStale_afterWord, hlong]; rfl
  have hword : s.step = .ok { afterWord l i rest before [] with candidates := [none] } := by
    rw [step_word hskip (by simp)]
    exact dropStale_loose rfl hstale rfl
  have hcolon : ({ afterWord l i rest before [] with candidates := [none] } : Scanner).step =
      .error (.malformed "mapping values are not allowed in this context" ⟨i, l.key.toList.length⟩ none) := by
    rw [step_next (skipGap_token (atToken_colon rest_within_key)) rfl (dropStale_none rfl) (by simp [afterWord])
      rest_within_key, next_colon (by simpa [afterWord] using l.key_length_pos) rfl]
    simp [value, afterWord, inFlow, notAllowed, mark, bind, Except.bind]
  refine ⟨.malformed "mapping values are not allowed in this context" ⟨i, l.key.toList.length⟩ none, ?_⟩
  rw [run_step hword rfl, run, hcolon]
  simp only [settled_of_none]
  simp [afterWord]

theorem run_long_later (hskip : s.skipGap = atLine l i rest before [0]) (hlong : l.isShort = false)
    (hcandidates : s.candidates = [none]) (n : Nat) :
    ∃ fault, run (n + 1) s = ⟨s.tokens.reverse, some fault⟩ := by
  have hstep : s.step = .error ((afterWord l i rest before [0]).missingColon (candidate i before [0])) := by
    rw [step_word hskip (by simp)]
    exact dropStale_required rfl (by rw [isStale_afterWord, hlong]; rfl) rfl
  exact ⟨_, by rw [run, hstep, settled_of_none hcandidates]⟩

theorem skipGap_following (ended : Bool) (m : Line) (ls : List Line) :
    (afterLine l i (Line.following ended (m :: ls)) before).skipGap =
      atLine m (i + 1) (Line.following ended ls) ((l.tokens i).reverse ++ before) [0] := by
  rw [skipGap_newline rfl rest_within_value (atToken_spelled m _)]
  simp [afterLine, atLine, Cursor.nextLine, within]
  rfl

theorem run_last (ended : Bool) (before : List Token) (n : Nat) :
    ∃ mark, run (n + 1) (afterLine l i (Line.following ended []) before) =
      ⟨before.reverse ++ l.tokens i ++ [⟨.blockEnd, mark⟩, ⟨.streamEnd, mark⟩], none⟩ := by
  have htokens : ((l.tokens i).reverse ++ before).reverse = before.reverse ++ l.tokens i := by simp
  have hnone : AtToken [] := by rintro y ⟨⟩
  rw [← htokens]
  cases ended with
  | false =>
    have hrest : (afterLine l i [] before).cursor.rest = [] := rest_within_value
    exact run_end (skipGap_token (by rw [hrest]; exact hnone)) hrest rfl rfl n
  | true => exact run_end (skipGap_newline rfl rest_within_value hnone) rfl rfl rfl n

/-- Lines with short keys are read one after the other. -/
theorem run_short (ended : Bool) {good : List Line} (hshort : ∀ m ∈ good, m.isShort) (more : List Line) (n : Nat)
    (l : Line) (i : Nat) (before : List Token) : ∃ last k earlier,
      run (n + 3 * good.length) (afterLine l i (Line.following ended (good ++ more)) before) =
        run n (afterLine last k (Line.following ended more) earlier) ∧
      earlier.reverse ++ last.tokens k = before.reverse ++ Line.allTokens i (l :: good) := by
  induction good generalizing l i before with
  | nil => exact ⟨l, i, before, rfl, by simp [Line.allTokens]⟩
  | cons m ms ih =>
    obtain ⟨last, k, earlier, hrun, htokens⟩ :=
      ih (fun m' hm' => hshort m' (List.mem_cons_of_mem m hm')) m (i + 1) ((l.tokens i).reverse ++ before)
    refine ⟨last, k, earlier, ?_, by simp [htokens, Line.allTokens]⟩
    rw [← hrun, List.cons_append, List.length_cons, Nat.mul_succ, ← Nat.add_assoc,
      run_later (skipGap_following ended m (ms ++ more)) (hshort m List.mem_cons_self)]

theorem run_lines (ended : Bool) {ls : List Line} (hshort : ∀ m ∈ ls, m.isShort) {n : Nat} (hn : 3 * ls.length < n)
    (l : Line) (i : Nat) (before : List Token) :
    ∃ mark, run n (afterLine l i (Line.following ended ls) before) = ⟨before.reverse ++ Line.allTokens i (l :: ls) ++
      [⟨.blockEnd, mark⟩, ⟨.streamEnd, mark⟩], none⟩ := by
  obtain ⟨n, rfl⟩ : ∃ k, n = k + 1 + 3 * ls.length := ⟨n - 1 - 3 * ls.length, by omega⟩
  obtain ⟨last, k, earlier, hrun, htokens⟩ := run_short ended hshort [] (n + 1) l i before
  obtain ⟨mark, hlast⟩ := run_last (l := last) (i := k) ended earlier n
  rw [List.append_nil] at hrun
  exact ⟨mark, by rw [hrun, hlast, htokens]⟩

/-- The other lines up to a long key. -/
theorem run_lines_cut (ended : Bool) {good : List Line} {bad : Line} (hshort : ∀ m ∈ good, m.isShort)
    (hlong : bad.isShort = false) (more : List Line) {n : Nat} (hn : 3 * good.length < n) (l : Line) (i : Nat)
    (before : List Token) : ∃ fault, run n (afterLine l i (Line.following ended (good ++ bad :: more)) before) =
      ⟨before.reverse ++ Line.allTokens i (l :: good), some fault⟩ := by
  obtain ⟨n, rfl⟩ : ∃ k, n = k + 1 + 3 * good.length := ⟨n - 1 - 3 * good.length, by omega⟩
  obtain ⟨last, k, earlier, hrun, htokens⟩ := run_short ended hshort (bad :: more) (n + 1) l i before
  obtain ⟨fault, hcut⟩ := run_long_later (skipGap_following (l := last) (i := k) ended bad more) hlong rfl n
  refine ⟨fault, ?_⟩
  rw [hrun, hcut, ← htokens]
  simp [afterLine]

end Scanner

/-! ## Texts -/

theorem length_spelled (l : Line) (rest : List Char) : 4 + rest.length < (l.spelled rest).length := by
  have hpos := l.key_length_pos
  simp only [Line.spelled, List.length_append, List.length_cons]
  omega

theorem length_following (ended : Bool) (ls : List Line) : 3 * ls.length ≤ (Line.following ended ls).length := by
  induction ls with
  | nil => simp
  | cons l ls ih =>
    have hline := length_spelled l (Line.following ended ls)
    simp only [Line.following, List.length_cons]
    omega

theorem skipGap_start (l : Line) (rest : List Char) :
    (Scanner.start (l.spelled rest)).skipGap = Scanner.atLine l 0 rest [] [] :=
  Scanner.skipGap_token (Scanner.atToken_spelled l rest)

theorem isAllowed_spelled (l : Line) (hrest : ∀ y ∈ rest, isAllowed y) : ∀ y ∈ l.spelled rest, isAllowed y := by
  have hname : ∀ y ∈ l.key.toList, isAllowed y := by
    intro y hy
    have hbounds := name_bounds (l.key_chars y hy)
    have hprintable : 0x20 ≤ y.toNat ∧ y.toNat ≤ 0x7E := by omega
    simp [isAllowed, hprintable]
  simp only [Line.spelled, List.forall_mem_append, List.forall_mem_cons]
  exact ⟨hname, rfl, rfl, rfl, l.allowed, rfl, hrest⟩

theorem isAllowed_following (ended : Bool) (ls : List Line) : ∀ y ∈ Line.following ended ls, isAllowed y := by
  induction ls with
  | nil => cases ended <;> simp [Line.following, isAllowed]
  | cons l ls ih =>
    rw [Line.following, List.forall_mem_cons]
    exact ⟨rfl, isAllowed_spelled l ih⟩

theorem scan_spelled (l : Line) (ended : Bool) (ls : List Line) : ∃ n, 3 * ls.length < n ∧
    scan (l.spelled (Line.following ended ls)) =
      Scanner.run (n + 3) (Scanner.start (l.spelled (Line.following ended ls))) := by
  have hline := length_spelled l (Line.following ended ls)
  have hlines := length_following ended ls
  refine ⟨(l.spelled (Line.following ended ls)).length - 2, by omega, ?_⟩
  rw [scan_eq_run (isAllowed_spelled l (isAllowed_following ended ls))]
  congr 1
  omega

/-- Lines with short keys are the tokens of a mapping. -/
theorem scan_lines {l : Line} {ls : List Line} (hshort : ∀ m ∈ l :: ls, m.isShort) (ended : Bool) :
    ∃ mark, scan (l.spelled (Line.following ended ls)) = ⟨⟨.blockMappingStart, ⟨0, 0⟩⟩ :: Line.allTokens 0 (l :: ls) ++
      [⟨.blockEnd, mark⟩, ⟨.streamEnd, mark⟩], none⟩ := by
  obtain ⟨n, hn, hscan⟩ := scan_spelled l ended ls
  obtain ⟨hl, hls⟩ := List.forall_mem_cons.1 hshort
  obtain ⟨mark, hrun⟩ := Scanner.run_lines ended hls hn l 0 [⟨.blockMappingStart, ⟨0, 0⟩⟩]
  exact ⟨mark, by rw [hscan, Scanner.run_first (skipGap_start l _) hl, hrun]; rfl⟩

/-- A line with a long key ends the tokens, with a fault. -/
theorem scan_lines_cut {l bad : Line} {good : List Line} (hshort : ∀ m ∈ l :: good, m.isShort)
    (hlong : bad.isShort = false) (more : List Line) (ended : Bool) :
    ∃ fault, scan (l.spelled (Line.following ended (good ++ bad :: more))) =
      ⟨⟨.blockMappingStart, ⟨0, 0⟩⟩ :: Line.allTokens 0 (l :: good), some fault⟩ := by
  obtain ⟨n, hn, hscan⟩ := scan_spelled l ended (good ++ bad :: more)
  obtain ⟨hl, hgood⟩ := List.forall_mem_cons.1 hshort
  obtain ⟨fault, hrun⟩ := Scanner.run_lines_cut ended hgood hlong more (n := n) (by simp at hn; omega) l 0
    [⟨.blockMappingStart, ⟨0, 0⟩⟩]
  exact ⟨fault, by rw [hscan, Scanner.run_first (skipGap_start l _) hl, hrun]; rfl⟩

/-- A long key at the front is no key. -/
theorem scan_lines_scalar {l : Line} (hlong : l.isShort = false) (ended : Bool) (ls : List Line) :
    ∃ fault, scan (l.spelled (Line.following ended ls)) = ⟨[⟨.scalar l.key true, ⟨0, 0⟩⟩], some fault⟩ := by
  obtain ⟨n, -, hscan⟩ := scan_spelled l ended ls
  obtain ⟨fault, hrun⟩ := Scanner.run_long_first (skipGap_start l _) hlong (n + 1)
  exact ⟨fault, by rw [hscan]; exact hrun⟩

end ServiceSchema.Yaml
