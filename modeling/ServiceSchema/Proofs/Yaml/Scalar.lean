import ServiceSchema.Yaml.Scalar

/-! # Scalars on one line
What is read of a plain scalar that is a single word, and of a text in double quotes that has no escapes and no
line breaks: the text itself, with the cursor just behind it. -/
namespace ServiceSchema.Yaml

variable {c : Cursor} {x : Char} {w v rest : List Char} {indent : Nat}

/-! ## Cursors -/

namespace Cursor

@[simp] theorem rest_skip (c : Cursor) (n : Nat) : (c.skip n).rest = c.rest.drop n := rfl

@[simp] theorem skip_zero (c : Cursor) : c.skip 0 = c := rfl

theorem skip_skip (c : Cursor) (m n : Nat) : (c.skip m).skip n = c.skip (m + n) := by
  simp only [skip, List.drop_drop, List.take_add, Text.byteLength_append, Nat.add_assoc]

theorem rest_skip_append (h : c.rest = w ++ rest) : (c.skip w.length).rest = rest := by
  rw [rest_skip, h, List.drop_left]

theorem atIndicator_of_column (h : 0 < c.column) : c.atIndicator = false := by
  have hcolumn : (c.column == 0) = false := beq_false_of_ne (Nat.ne_of_gt h)
  rw [atIndicator, hcolumn, Bool.false_and]

theorem atIndicator_of_head (h : c.rest = x :: rest) (hdash : x ≠ '-') (hpoint : x ≠ '.') :
    c.atIndicator = false := by
  rw [atIndicator, h]
  split <;> simp_all

end Cursor

/-! ## Gaps -/

theorem takeBreak?_eq_none (h : isBreak x = false) (xs : List Char) : takeBreak? (x :: xs) = none := by
  have hreturn : x ≠ '\r' := by
    rintro rfl
    cases h
  have hseparator : (x.toNat == 0x2028 || x.toNat == 0x2029) = false := by
    simp only [isBreak, Bool.or_eq_false_iff] at h
    rw [h.2, h.1.2, Bool.false_or]
  rw [takeBreak?.eq_2 _ _ (fun _ hx => absurd hx hreturn), hseparator, h]
  rfl

namespace Gap

/-- Blanks on a line, as far as something else follows. -/
theorem readWithin_blanks {blanks : List Char} {n : Nat} (hblanks : ∀ b ∈ blanks, isBlank b)
    (hrest : c.rest = blanks ++ rest) (hnext : ∀ y ∈ rest.head?, isSpace y = false) (hn : blanks.length ≤ n)
    (before : List Char) :
    readWithin indent n ⟨before, [], none⟩ c = (⟨before ++ blanks, [], none⟩, c.skip blanks.length) := by
  induction n generalizing blanks c before with
  | zero =>
    obtain rfl := List.length_eq_zero_iff.1 (Nat.le_zero.1 hn)
    rw [readWithin, List.append_nil]
    rfl
  | succ n ih =>
    cases blanks with
    | nil =>
      rw [readWithin, hrest, List.nil_append, List.append_nil]
      cases rest with
      | nil => rfl
      | cons y ys =>
        obtain ⟨hblank, hbreak⟩ := Bool.or_eq_false_iff.1 (hnext y rfl)
        simp only [hblank, takeBreak?_eq_none hbreak]
        rfl
    | cons b bs =>
      have hafter : (c.skip 1).rest = bs ++ rest := by rw [Cursor.rest_skip, hrest]; rfl
      have hadd : addBlank ⟨before, [], none⟩ b indent c.mark = ⟨before ++ [b], [], none⟩ := rfl
      rw [readWithin, hrest, List.cons_append]
      simp only [hblanks b List.mem_cons_self, if_true, hadd]
      rw [ih (fun y hy => hblanks y (List.mem_cons_of_mem b hy)) hafter (Nat.le_of_succ_le_succ hn),
        Cursor.skip_skip, List.append_assoc, List.length_cons, Nat.add_comm]
      rfl

theorem read_blanks {blanks : List Char} (hblanks : ∀ b ∈ blanks, isBlank b) (hrest : c.rest = blanks ++ rest)
    (hnext : ∀ y ∈ rest.head?, isSpace y = false) :
    read indent c = (⟨blanks, [], none⟩, c.skip blanks.length) := by
  have hn : blanks.length ≤ c.rest.length := by
    rw [hrest, List.length_append]
    exact Nat.le_add_right ..
  exact readWithin_blanks hblanks hrest hnext hn []

theorem read_eq_empty (hnext : ∀ y ∈ c.rest.head?, isSpace y = false) : read indent c = (empty, c) :=
  read_blanks (by simp) rfl hnext

end Gap

namespace Scalar

/-! ## Plain scalars -/

/-- A colon before a blank ends a word. -/
theorem word_colon (hw : ∀ y ∈ w, isSpace y = false ∧ y ≠ ':') (hend : wordEnds rest) :
    word false (w ++ ':' :: rest) = w := by
  induction w with
  | nil => simp [word, hend]
  | cons y ys ih =>
    obtain ⟨hspace, hcolon⟩ := hw y List.mem_cons_self
    have hys := ih fun z hz => hw z (List.mem_cons_of_mem y hz)
    simp [word, hspace, hcolon, hys]

/-- A plain scalar is a word that ends with a colon, unless an indicator begins it. -/
theorem plain_colon (indent : Nat) (hw : ∀ y ∈ w, isSpace y = false ∧ y ≠ ':')
    (hfirst : ∃ y, w.head? = some y ∧ y ≠ '#' ∧ y ≠ '-' ∧ y ≠ '.') (hrest : c.rest = w ++ ':' :: rest)
    (hend : wordEnds rest) : plain false indent c = .ok (w, false, c.skip w.length) := by
  obtain ⟨y, hhead, hhash, hdash, hpoint⟩ := hfirst
  obtain ⟨ys, rfl⟩ := List.head?_eq_some_iff.1 hhead
  have hcons : c.rest = y :: (ys ++ ':' :: rest) := hrest
  have hgap : Gap.read indent (c.skip (y :: ys).length) = (.empty, c.skip (y :: ys).length) := by
    refine Gap.read_eq_empty ?_
    rw [Cursor.rest_skip_append hrest]
    rintro z ⟨⟩
    rfl
  rw [plain, hcons, List.length_cons, plainFrom]
  simp only [Cursor.atIndicator_of_head hcons hdash hpoint, hrest, word_colon hw hend, hgap]
  simp [hhash, Gap.empty, Gap.fold]

/-! ## Quoted scalars -/

/-- A text that stands for itself in double quotes. -/
def IsVerbatim (v : List Char) : Prop := ∀ y ∈ v, isBreak y = false ∧ y ≠ '"' ∧ y ≠ '\\'

/-- The blanks at the front of such a text end where a word or the closing quote begins. -/
theorem IsVerbatim.exists_blanks (hv : IsVerbatim v) (rest : List Char) : ∃ blanks after, v = blanks ++ after ∧
    (∀ b ∈ blanks, isBlank b) ∧ IsVerbatim after ∧
      ∀ z ∈ (after ++ '"' :: rest).head?, isSpace z = false := by
  refine ⟨v.takeWhile isBlank, v.dropWhile isBlank, List.takeWhile_append_dropWhile.symm,
    List.all_eq_true.1 List.all_takeWhile, fun z hz => hv z (List.dropWhile_subset _ hz), ?_⟩
  have hnot := List.head?_dropWhile_not isBlank v
  cases hdrop : v.dropWhile isBlank with
  | nil =>
    rintro z ⟨⟩
    rfl
  | cons y ys =>
    rintro z ⟨⟩
    rw [hdrop] at hnot
    have hbreak := (hv y (List.dropWhile_subset isBlank (hdrop ▸ List.mem_cons_self))).1
    rw [isSpace, hnot, hbreak, Bool.false_or]

theorem quotedFrom_verbatim {start : Mark} {n : Nat} (hv : IsVerbatim v) (hrest : c.rest = v ++ '"' :: rest)
    (hcolumn : 0 < c.column) (hn : v.length < n) :
    quotedFrom true start n c = .ok (v, c.skip (v.length + 1)) := by
  induction n generalizing v c with
  | zero => exact absurd hn (Nat.not_lt_zero _)
  | succ n ih =>
    rw [quotedFrom]
    simp only [Cursor.atIndicator_of_column hcolumn]
    cases v with
    | nil =>
      rw [hrest]
      rfl
    | cons y ys =>
      obtain ⟨hbreak, hquote, hslash⟩ := hv y List.mem_cons_self
      rw [hrest, List.cons_append]
      by_cases hblank : isBlank y
      · -- the blanks up to the next word are one gap
        have hspace : isSpace y := by simp [isSpace, hblank]
        obtain ⟨blanks, after, hsplit, hblanks, hafter, hnext⟩ := hv.exists_blanks rest
        have hgap : Gap.read 0 c = (⟨blanks, [], none⟩, c.skip blanks.length) :=
          Gap.read_blanks hblanks (by rw [hrest, hsplit, List.append_assoc]) hnext
        have hpos : 0 < blanks.length := by
          refine List.length_pos_iff.2 fun hnil => ?_
          rw [hnil, List.nil_append] at hsplit
          simp [← hsplit, hspace] at hnext
        have hlength : (y :: ys).length = blanks.length + after.length := by rw [hsplit, List.length_append]
        have hrec : quotedFrom true start n (c.skip blanks.length) =
            .ok (after, (c.skip blanks.length).skip (after.length + 1)) := by
          refine ih hafter (Cursor.rest_skip_append ?_) (Nat.lt_add_right _ hcolumn) (by omega)
          rw [hrest, hsplit, List.append_assoc]
        simp only [hspace, if_true, hgap, hrec, Cursor.skip_skip, Except.map, Gap.fold, hsplit,
          List.length_append, Nat.add_assoc]
        rfl
      · have hspace : isSpace y = false := by simp [isSpace, hblank, hbreak]
        have hafter : (c.skip 1).rest = ys ++ '"' :: rest := by rw [Cursor.rest_skip, hrest]; rfl
        have hys := ih (fun z hz => hv z (List.mem_cons_of_mem y hz)) hafter (Nat.lt_add_right _ hcolumn)
          (Nat.lt_of_succ_lt_succ hn)
        simp [hspace, hquote, hslash, hys, Cursor.skip_skip, Except.map, Nat.add_comm]

theorem quoted_verbatim (hv : IsVerbatim v) (hrest : c.rest = '"' :: (v ++ '"' :: rest)) :
    quoted true c = .ok (v, c.skip (v.length + 2)) := by
  have hafter : (c.skip 1).rest = v ++ '"' :: rest := by rw [Cursor.rest_skip, hrest]; rfl
  have hn : v.length < c.rest.length + 1 := by simp [hrest]; omega
  rw [quoted, quotedFrom_verbatim hv hafter (Nat.succ_pos _) hn, Cursor.skip_skip, Nat.add_comm 1]

end Scalar

end ServiceSchema.Yaml
