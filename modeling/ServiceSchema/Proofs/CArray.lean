import ServiceSchema.CArray

/-! # Reading C array literals
A reader for literals, which cuts a text into its lines, and a line into its words. Every list of bytes is read back
from its literal; how the tokens stand on the lines follows from the rows that the bytes fall into. -/
namespace ServiceSchema.CArray

/-! ## Tokens -/

/-- The value of a hexadecimal digit. Letters must be capital. -/
def hexValue? (c : Char) : Option Nat :=
  if '0' ≤ c ∧ c ≤ '9' then some (c.toNat - '0'.toNat)
  else if 'A' ≤ c ∧ c ≤ 'F' then some (c.toNat - 'A'.toNat + 10)
  else none

def readToken? : List Char → Option UInt8
  | ['0', 'x', h, l] =>
    match hexValue? h, hexValue? l with
    | some high, some low => some (.ofNat (high * 16 + low))
    | _, _ => none
  | _ => none

theorem hexValue?_hexDigit {n : Nat} (h : n < 16) : hexValue? (hexDigit n) = some n := by
  revert n
  decide

theorem readToken?_token (b : UInt8) : readToken? (token b) = some b := by
  have hlt := b.toNat_lt
  have hhigh := hexValue?_hexDigit (n := b.toNat / 16) (by omega)
  have hlow := hexValue?_hexDigit (n := b.toNat % 16) (by omega)
  have hsum : b.toNat / 16 * 16 + b.toNat % 16 = b.toNat := by omega
  simp only [token, readToken?, hhigh, hlow, hsum, UInt8.ofNat_toNat]

/-- Nothing in a token ends it. -/
theorem not_mem_token {c : Char} (h : c = ',' ∨ c = ' ' ∨ c = '\n') (b : UInt8) : c ∉ token b := by
  have hdigit (n : Nat) (hn : n < 16) : c ≠ hexDigit n := by
    revert n
    rcases h with rfl | rfl | rfl <;> decide
  have hlt := b.toNat_lt
  have hhigh := hdigit (b.toNat / 16) (by omega)
  have hlow := hdigit (b.toNat % 16) (by omega)
  rcases h with rfl | rfl | rfl <;> simp [token, hhigh, hlow]

/-! ## Words -/

def separator : List Char := [',', ' ']

/-- What stands between the commas and blanks of a line. -/
def words (line : List Char) : List (List Char) :=
  (line.splitOnP fun c => c = ',' || c = ' ').filter fun word => !word.isEmpty

theorem words_separator {c : Char} (h : c = ',' ∨ c = ' ') (cs : List Char) : words (c :: cs) = words cs := by
  rcases h with rfl | rfl <;> simp [words, List.splitOnP_cons_eq_if_modifyHead]

theorem token_ne_separator (b : UInt8) : ∀ c ∈ token b, (decide (c = ',') || decide (c = ' ')) = false := by
  intro c hc
  have hcomma : c ≠ ',' := fun h => not_mem_token (.inl h) b hc
  have hblank : c ≠ ' ' := fun h => not_mem_token (.inr (.inl h)) b hc
  simp [hcomma, hblank]

theorem words_token (b : UInt8) : words (token b) = [token b] := by
  rw [words, List.splitOnP_eq_singleton (token_ne_separator b)]
  rfl

theorem words_token_append (b : UInt8) (cs : List Char) :
    words (token b ++ (separator ++ cs)) = token b :: words cs := by
  have hwords : words (token b ++ (separator ++ cs)) = token b :: words (' ' :: cs) := by
    rw [separator, List.cons_append, words,
      List.splitOnP_append_cons_of_forall_mem (token_ne_separator b) ',' (by simp)]
    rfl
  rw [hwords, words_separator (.inr rfl)]

def readLine? (line : List Char) : Option (List UInt8) := (words line).mapM readToken?

/-- The bytes of a literal, line by line. The first and the last line have none. -/
def read? (text : String) : Option (List UInt8) :=
  ((text.toList.splitOn '\n').tail.dropLast.mapM readLine?).map List.flatten

/-! ## Rows -/

/-- Rows of eight bytes, the last of which may have less, but not none. -/
inductive Rows : List UInt8 → List (List UInt8) → Prop where
  | nil : Rows [] []
  | last {row : List UInt8} (hpos : 0 < row.length) (hle : row.length ≤ bytesPerLine) : Rows row [row]
  | cons {row rest : List UInt8} {rows : List (List UInt8)} (hlength : row.length = bytesPerLine) (hrest : rest ≠ [])
      (h : Rows rest rows) : Rows (row ++ rest) (row :: rows)

namespace Rows

variable {bytes : List UInt8} {rows : List (List UInt8)}

theorem ne_nil (h : Rows bytes rows) (hbytes : bytes ≠ []) : rows ≠ [] := by
  cases h with
  | nil => exact absurd rfl hbytes
  | last | cons => exact List.cons_ne_nil _ _

theorem flatten (h : Rows bytes rows) : rows.flatten = bytes := by
  induction h with
  | nil => rfl
  | last => simp
  | cons _ _ _ ih => rw [List.flatten_cons, ih]

theorem length (h : Rows bytes rows) : rows.length = (bytes.length + 7) / 8 := by
  induction h with
  | nil => rfl
  | last hpos hle =>
    simp only [bytesPerLine] at hle
    simp only [List.length_singleton]
    omega
  | cons hlength _ _ ih =>
    simp only [bytesPerLine] at hlength
    rw [List.length_cons, ih, List.length_append, hlength]
    omega

theorem length_of_mem_dropLast (h : Rows bytes rows) : ∀ row ∈ rows.dropLast, row.length = 8 := by
  induction h with
  | nil | last => simp
  | cons hlength hrest hrows ih =>
    rw [List.dropLast_cons_of_ne_nil (hrows.ne_nil hrest), List.forall_mem_cons]
    exact ⟨hlength, ih⟩

theorem length_of_mem_getLast? (h : Rows bytes rows) : ∀ row ∈ rows.getLast?, 1 ≤ row.length ∧ row.length ≤ 8 := by
  induction h with
  | nil => simp
  | last hpos hle => simpa using ⟨hpos, hle⟩
  | cons hlength hrest hrows ih =>
    rw [List.getLast?_cons_of_ne_nil (hrows.ne_nil hrest)]
    exact ih

end Rows

theorem exists_rows (bytes : List UInt8) : ∃ rows, Rows bytes rows := by
  induction hn : bytes.length using Nat.strongRecOn generalizing bytes with
  | ind n ih =>
    subst hn
    rcases Nat.lt_or_ge bytesPerLine bytes.length with hlong | hshort
    · have hrest : bytes.drop bytesPerLine ≠ [] := by simpa using hlong
      have hlt : (bytes.drop bytesPerLine).length < bytes.length := by
        simp only [List.length_drop, bytesPerLine] at hlong ⊢
        omega
      obtain ⟨rows, hrows⟩ := ih _ hlt _ rfl
      have hlength : (bytes.take bytesPerLine).length = bytesPerLine := by
        rw [List.length_take]
        omega
      refine ⟨bytes.take bytesPerLine :: rows, ?_⟩
      rw [← List.take_append_drop bytesPerLine bytes, List.take_append_drop]
      simpa using Rows.cons hlength hrest hrows
    · cases bytes with
      | nil => exact ⟨[], .nil⟩
      | cons b bs => exact ⟨_, .last (Nat.succ_pos _) hshort⟩

/-! ## Lines -/

def separated (row : List UInt8) : List Char := row.flatMap fun b => token b ++ separator

def joined (row : List UInt8) : List Char := separator.intercalate (row.map token)

def contents : List (List UInt8) → List (List Char)
  | [] => []
  | [row] => [joined row]
  | row :: next :: rows => separated row :: contents (next :: rows)

theorem contents_cons (row : List UInt8) {rows : List (List UInt8)} (h : rows ≠ []) :
    contents (row :: rows) = separated row :: contents rows := by
  cases rows with
  | nil => exact absurd rfl h
  | cons => rfl

def indented (content : List Char) : List Char := ' ' :: ' ' :: content

def indent (column : Nat) : List Char := if column = 0 then [' ', ' '] else []

theorem body_single (column : Nat) (b : UInt8) : body column [b] = indent column ++ (token b ++ ['\n']) := by
  simp [body, indent]

theorem body_inside {column : Nat} (h : column + 1 < bytesPerLine) (b c : UInt8) (bs : List UInt8) :
    body column (b :: c :: bs) = indent column ++ (token b ++ (separator ++ body (column + 1) (c :: bs))) := by
  rw [body, Nat.mod_eq_of_lt h]
  · simp [Nat.ne_of_lt h, indent, separator]
  · exact List.cons_ne_nil c bs

theorem body_wrap {column : Nat} (h : column + 1 = bytesPerLine) (b c : UInt8) (bs : List UInt8) :
    body column (b :: c :: bs) = indent column ++ (token b ++ (separator ++ '\n' :: body 0 (c :: bs))) := by
  rw [body, h, Nat.mod_self]
  · simp [indent, separator]
  · exact List.cons_ne_nil c bs

/-- The bytes of a row fill the line from a column on, and the next line begins. -/
theorem body_full {column : Nat} {row rest : List UInt8} (hrow : row ≠ []) (hrest : rest ≠ [])
    (h : column + row.length = bytesPerLine) :
    body column (row ++ rest) = indent column ++ (separated row ++ '\n' :: body 0 rest) := by
  induction row generalizing column with
  | nil => exact absurd rfl hrow
  | cons b row ih =>
    cases row with
    | nil =>
      obtain ⟨c, cs, rfl⟩ := List.exists_cons_of_ne_nil hrest
      rw [List.singleton_append, body_wrap h]
      simp [separated]
    | cons c row =>
      simp only [List.length_cons] at h ih
      rw [List.cons_append, List.cons_append, body_inside (by omega), ← List.cons_append,
        ih (List.cons_ne_nil _ _) (by omega)]
      simp [separated, indent]

theorem body_last {column : Nat} {row : List UInt8} (hrow : row ≠ []) (h : column + row.length ≤ bytesPerLine) :
    body column row = indent column ++ (joined row ++ ['\n']) := by
  induction row generalizing column with
  | nil => exact absurd rfl hrow
  | cons b row ih =>
    cases row with
    | nil => simp [body_single, joined]
    | cons c row =>
      simp only [List.length_cons] at h ih
      rw [body_inside (by omega), ih (List.cons_ne_nil _ _) (by omega)]
      simp [joined, List.intercalate_cons_cons, indent]

theorem body_rows {bytes : List UInt8} {rows : List (List UInt8)} (h : Rows bytes rows) :
    body 0 bytes = (contents rows).flatMap fun content => indented content ++ ['\n'] := by
  induction h with
  | nil => rfl
  | last hpos hle =>
    rw [body_last (List.ne_nil_of_length_pos hpos) (by simpa using hle)]
    simp [contents, indented, indent]
  | cons hlength hrest hrows ih =>
    rw [body_full (List.ne_nil_of_length_pos (by simp [hlength, bytesPerLine])) hrest (by simpa using hlength), ih,
      contents_cons _ (hrows.ne_nil hrest)]
    simp [indented, indent]

theorem joined_append (row : List UInt8) {rest : List UInt8} (hrest : rest ≠ []) :
    joined (row ++ rest) = separated row ++ joined rest := by
  induction row with
  | nil => rfl
  | cons b row ih =>
    have hne : (row ++ rest).map token ≠ [] := by simp [hrest]
    calc
      joined (b :: (row ++ rest)) = token b ++ separator ++ joined (row ++ rest) := by
        rw [joined, List.map_cons, List.intercalate_cons_of_ne_nil hne, joined]
      _ = separated (b :: row) ++ joined rest := by
        rw [ih]
        simp [separated]

/-- The lines go on like one. -/
theorem flatten_contents {bytes : List UInt8} {rows : List (List UInt8)} (h : Rows bytes rows) :
    (contents rows).flatten = joined bytes := by
  induction h with
  | nil => rfl
  | last hpos hle => simp [contents]
  | cons hlength hrest hrows ih =>
    rw [joined_append _ hrest, ← ih, contents_cons _ (hrows.ne_nil hrest), List.flatten_cons]

theorem contents_ne_nil {rows : List (List UInt8)} (h : rows ≠ []) : contents rows ≠ [] := by
  obtain ⟨row, rows, rfl⟩ := List.exists_cons_of_ne_nil h
  cases rows with
  | nil => exact List.cons_ne_nil _ _
  | cons => exact List.cons_ne_nil _ _

theorem separator_suffix {row : List UInt8} (h : row ≠ []) : separator <:+ separated row := by
  obtain ⟨row, b, rfl⟩ : ∃ bs b, row = bs ++ [b] := ⟨_, _, (List.dropLast_concat_getLast h).symm⟩
  exact ⟨separated row ++ token b, by simp [separated]⟩

/-- A line that is not the last one ends in a separator. -/
theorem separator_suffix_contents {bytes : List UInt8} {rows : List (List UInt8)} (h : Rows bytes rows) :
    ∀ content ∈ (contents rows).dropLast, separator <:+ content := by
  induction h with
  | nil => simp [contents]
  | last => simp [contents]
  | cons hlength hrest hrows ih =>
    have hrows := hrows.ne_nil hrest
    rw [contents_cons _ hrows, List.dropLast_cons_of_ne_nil (contents_ne_nil hrows), List.forall_mem_cons]
    exact ⟨separator_suffix (List.ne_nil_of_length_pos (by simp [hlength, bytesPerLine])), ih⟩

/-! ## Words of a line -/

theorem words_separated (row : List UInt8) : words (separated row) = row.map token := by
  induction row with
  | nil => rfl
  | cons b row ih =>
    rw [separated, List.flatMap_cons, List.append_assoc, words_token_append, ← separated, ih, List.map_cons]

theorem words_joined (row : List UInt8) : words (joined row) = row.map token := by
  induction row with
  | nil => rfl
  | cons b row ih =>
    cases row with
    | nil => simp [joined, words_token]
    | cons c row =>
      rw [joined, List.map_cons, List.map_cons, List.intercalate_cons_cons, List.append_assoc, words_token_append,
        ← List.map_cons, ← joined, ih]

/-- Every line has the words of its row. -/
theorem map_words_contents (rows : List (List UInt8)) :
    (contents rows).map words = rows.map (List.map token) := by
  induction rows with
  | nil => rfl
  | cons row rows ih =>
    cases rows with
    | nil => simp [contents, words_joined]
    | cons next rows =>
      rw [contents, List.map_cons, ih, words_separated]
      rfl

theorem words_indented (content : List Char) : words (indented content) = words content := by
  rw [indented, words_separator (.inr rfl), words_separator (.inr rfl)]

theorem mapM_readToken? (row : List UInt8) : (row.map token).mapM readToken? = some row := by
  induction row with
  | nil => rfl
  | cons b row ih => simp [readToken?_token, ih]

theorem mapM_readLine? {contents : List (List Char)} {rows : List (List UInt8)}
    (h : contents.map words = rows.map (List.map token)) :
    (contents.map indented).mapM readLine? = some rows := by
  induction contents generalizing rows with
  | nil =>
    cases rows with
    | nil => rfl
    | cons row rows => cases h
  | cons content contents ih =>
    cases rows with
    | nil => cases h
    | cons row rows =>
      obtain ⟨hhead, htail⟩ := List.cons.inj h
      have hline : readLine? (indented content) = some row := by
        rw [readLine?, words_indented, hhead, mapM_readToken?]
      simp [hline, ih htail]

/-! ## The text -/

theorem intercalate_append_singleton (sep last : List Char) (lines : List (List Char)) :
    sep.intercalate (lines ++ [last]) = (lines.flatMap fun line => line ++ sep) ++ last := by
  induction lines with
  | nil => simp
  | cons line lines ih =>
    rw [List.cons_append, List.intercalate_cons_of_ne_nil (by simp), ih]
    simp

theorem newline_not_mem_separated (row : List UInt8) : '\n' ∉ separated row := by
  intro h
  obtain ⟨b, -, hb⟩ := List.mem_flatMap.1 h
  have htoken := not_mem_token (.inr (.inr rfl)) b
  simp [separator, htoken] at hb

theorem newline_not_mem_joined (row : List UInt8) : '\n' ∉ joined row := by
  induction row with
  | nil => simp [joined]
  | cons b row ih =>
    have htoken := not_mem_token (.inr (.inr rfl)) b
    cases row with
    | nil => simpa [joined] using htoken
    | cons c row => simpa [joined, List.intercalate_cons_cons, separator, htoken] using ih

theorem newline_not_mem_contents (rows : List (List UInt8)) : ∀ content ∈ contents rows, '\n' ∉ content := by
  induction rows with
  | nil => simp [contents]
  | cons row rows ih =>
    cases rows with
    | nil => simpa [contents] using newline_not_mem_joined row
    | cons next rows =>
      rw [contents, List.forall_mem_cons]
      exact ⟨newline_not_mem_separated row, ih⟩

/-- The lines of a literal. -/
theorem splitOn_literal {bytes : List UInt8} {rows : List (List UInt8)} (h : Rows bytes rows) :
    (literal bytes).toList.splitOn '\n' = ['\x7b'] :: ((contents rows).map indented ++ [['\x7d', ';']]) := by
  have hlines : (literal bytes).toList
      = ['\n'].intercalate (['\x7b'] :: ((contents rows).map indented ++ [['\x7d', ';']])) := by
    rw [List.intercalate_cons_of_ne_nil (by simp), intercalate_append_singleton, literal, String.toList_ofList,
      body_rows h, List.flatMap_map]
    rfl
  rw [hlines]
  apply List.splitOn_intercalate
  · have hcontents := newline_not_mem_contents rows
    rw [List.forall_mem_cons, List.forall_mem_append, List.forall_mem_map]
    exact ⟨by decide, by simpa [indented] using hcontents, by decide⟩
  · exact List.cons_ne_nil _ _

/-- Every list of bytes is read back from its literal. -/
theorem read?_literal (bytes : List UInt8) : read? (literal bytes) = some bytes := by
  obtain ⟨rows, h⟩ := exists_rows bytes
  rw [read?, splitOn_literal h, List.tail_cons, List.dropLast_concat, mapM_readLine? (map_words_contents rows),
    Option.map_some, h.flatten]

theorem count_comma_joined (row : List UInt8) : (joined row).count ',' = row.length - 1 := by
  induction row with
  | nil => rfl
  | cons b row ih =>
    have htoken := List.count_eq_zero.2 (not_mem_token (.inl rfl) b)
    cases row with
    | nil => simpa [joined] using htoken
    | cons c row =>
      rw [joined, List.map_cons, List.map_cons, List.intercalate_cons_cons, ← List.map_cons, ← joined,
        List.count_append, List.count_append, htoken, ih]
      simp [separator]
      omega

theorem count_comma_literal (bytes : List UInt8) : (literal bytes).toList.count ',' = bytes.length - 1 := by
  obtain ⟨rows, h⟩ := exists_rows bytes
  have hlines : ((contents rows).flatMap fun content => indented content ++ ['\n']).count ','
      = (contents rows).flatten.count ',' := by
    induction contents rows with
    | nil => rfl
    | cons content contents ih =>
      rw [List.flatMap_cons, List.flatten_cons, List.count_append, List.count_append, ih]
      simp [indented]
  rw [literal, String.toList_ofList, body_rows h]
  simp [hlines, flatten_contents h, count_comma_joined]

/-- A literal is its bytes, written one after the other in lines of eight tokens, the last of which may have less.
Lines are indented by two blanks. Every token but the last one is followed by a comma and a blank, also at the end of
a line. -/
theorem literal_lossless (bytes : List UInt8) :
    (∃ contents : List (List Char),
      (literal bytes).toList.splitOn '\n' = ['\x7b'] :: (contents.map ([' ', ' '] ++ ·) ++ [['\x7d', ';']]) ∧
      contents.length = (bytes.length + 7) / 8 ∧
      (∀ content ∈ contents.dropLast, (words content).length = 8 ∧ [',', ' '] <:+ content) ∧
      (∀ content ∈ contents.getLast?, 1 ≤ (words content).length ∧ (words content).length ≤ 8) ∧
      ∃ tokens, contents.flatten = [',', ' '].intercalate tokens ∧ tokens.map readToken? = bytes.map some) ∧
    (literal bytes).toList.count ',' = bytes.length - 1 ∧
    read? (literal bytes) = some bytes ∧
    ∀ other, literal other = literal bytes → other = bytes := by
  obtain ⟨rows, h⟩ := exists_rows bytes
  have hwords := map_words_contents rows
  have hlengths : (contents rows).map (fun content => (words content).length) = rows.map List.length := by
    simpa [Function.comp_def] using congrArg (List.map List.length) hwords
  refine ⟨⟨contents rows, splitOn_literal h, ?_, ?_, ?_, bytes.map token, flatten_contents h, ?_⟩,
    count_comma_literal bytes, read?_literal bytes, ?_⟩
  · rw [← h.length]
    simpa using congrArg List.length hwords
  · intro content hcontent
    have hmem := List.mem_map_of_mem (f := fun content => (words content).length) hcontent
    rw [List.map_dropLast, hlengths, ← List.map_dropLast] at hmem
    obtain ⟨row, hrow, hlength⟩ := List.mem_map.1 hmem
    refine ⟨?_, separator_suffix_contents h content hcontent⟩
    rw [← hlength, h.length_of_mem_dropLast row hrow]
  · intro content hcontent
    have hmem := Option.mem_map_of_mem (fun content => (words content).length) hcontent
    rw [← List.getLast?_map, hlengths, List.getLast?_map] at hmem
    obtain ⟨row, hrow, hlength⟩ := Option.map_eq_some_iff.1 hmem
    rw [← hlength]
    exact h.length_of_mem_getLast? row hrow
  · simp [readToken?_token]
  · intro other hother
    have hread := read?_literal other
    rw [hother, read?_literal] at hread
    exact (Option.some.inj hread).symm

end ServiceSchema.CArray
