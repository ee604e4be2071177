import Mathlib.Data.List.Basic
import ServiceSchema.Text.Quoted

/-! # Quoted texts read back
What is shown of one character is never the beginning of what is shown of another. So a quoted text tells which text it
is, and where it ends, whatever follows it. -/
namespace ServiceSchema.Text

variable {c d : Char} {cs ds s t : List Char}

/-! ## Digits -/

/-- A list that is cut at the first place of an element is cut at one place only. -/
theorem append_cons_inj {α : Type} {a : α} {as bs xs ys : List α} (ha : a ∉ as) (hb : a ∉ bs)
    (h : as ++ a :: xs = bs ++ a :: ys) : as = bs ∧ xs = ys := by
  rcases List.append_eq_append_iff.1 h with ⟨u, rfl, hu⟩ | ⟨u, rfl, hu⟩ <;> cases u with
  | nil => simpa [eq_comm] using hu
  | cons b u =>
    obtain ⟨rfl, -⟩ := List.cons.inj hu
    simp at ha hb

theorem digitChar_injective {m n : Nat} (hm : m < 16) (hn : n < 16) (h : Nat.digitChar m = Nat.digitChar n) :
    m = n := by
  have hall : ∀ m < 16, ∀ n < 16, Nat.digitChar m = Nat.digitChar n → m = n := by decide
  exact hall m hm n hn h

theorem toDigits_injective {b m n : Nat} (hb : 1 < b) (hle : b ≤ 16) (h : Nat.toDigits b m = Nat.toDigits b n) :
    m = n := by
  induction m using Nat.strongRecOn generalizing n with
  | ind m ih =>
    rw [Nat.toDigits_eq_if hb, Nat.toDigits_eq_if hb (n := n)] at h
    have hpos (k : Nat) : 0 < (Nat.toDigits b k).length := Nat.length_toDigits_pos
    split at h <;> split at h
    · exact digitChar_injective (by omega) (by omega) (List.cons.inj h).1
    · have hlength := congrArg List.length h
      simp [Nat.ne_of_gt (hpos (n / b))] at hlength
    · have hlength := congrArg List.length h
      simp [Nat.ne_of_gt (hpos (m / b))] at hlength
    · obtain ⟨hdiv, hmod⟩ := List.append_inj' h rfl
      have hm := Nat.mod_lt m (Nat.lt_of_succ_lt hb)
      have hn := Nat.mod_lt n (Nat.lt_of_succ_lt hb)
      have hquotient := ih (m / b) (Nat.div_lt_self (by omega) hb) hdiv
      have hremainder := digitChar_injective (by omega) (by omega) (List.cons.inj hmod).1
      rw [← Nat.div_add_mod m b, ← Nat.div_add_mod n b, hquotient, hremainder]

theorem exists_digit {b n : Nat} (hb : 1 < b) (h : c ∈ Nat.toDigits b n) : ∃ d < b, c = Nat.digitChar d := by
  induction n using Nat.strongRecOn with
  | ind n ih =>
    rw [Nat.toDigits_eq_if hb] at h
    split at h
    · exact ⟨n, ‹_›, List.mem_singleton.1 h⟩
    · rcases List.mem_append.1 h with h | h
      · exact ih (n / b) (Nat.div_lt_self (by omega) hb) h
      · exact ⟨n % b, Nat.mod_lt n (Nat.lt_of_succ_lt hb), List.mem_singleton.1 h⟩

theorem digitChar_isAlphanum {n : Nat} (h : n < 16) : (Nat.digitChar n).isAlphanum := by
  have hall : ∀ n < 16, (Nat.digitChar n).isAlphanum := by decide
  exact hall n h

/-- Digits end at the first character that is neither a letter nor a digit. -/
theorem toDigits_append_inj {b m n : Nat} (hb : 1 < b) (hle : b ≤ 16) (hc : c.isAlphanum = false)
    (h : Nat.toDigits b m ++ c :: s = Nat.toDigits b n ++ c :: t) : m = n ∧ s = t := by
  have hnot (k : Nat) : c ∉ Nat.toDigits b k := fun hmem => by
    obtain ⟨d, hd, rfl⟩ := exists_digit hb hmem
    rw [digitChar_isAlphanum (by omega)] at hc
    cases hc
  obtain ⟨hdigits, hst⟩ := append_cons_inj (hnot m) (hnot n) h
  exact ⟨toDigits_injective hb hle hdigits, hst⟩

/-! ## Characters -/

/-- The characters that are shown by a letter behind a backslash. -/
def letters : List (Char × Char) :=
  [('\x00', '0'), ('\t', 't'), ('\n', 'n'), ('\r', 'r'), ('"', '"'), ('\\', '\\')]

theorem showChar_cases (c : Char) : (∃ e, (c, e) ∈ letters ∧ showChar c = ['\\', e]) ∨ showChar c = codePoint c ∨
    (showChar c = [c] ∧ c ≠ '\\' ∧ c ≠ '"') := by
  rw [showChar]
  split
  · exact .inl ⟨_, by simp [letters, *], rfl⟩
  split
  · exact .inl ⟨_, by simp [letters, *], rfl⟩
  split
  · exact .inl ⟨_, by simp [letters, *], rfl⟩
  split
  · exact .inl ⟨_, by simp [letters, *], rfl⟩
  split
  · exact .inl ⟨_, by simp [letters, *], rfl⟩
  split
  · exact .inl ⟨_, by simp [letters, *], rfl⟩
  split
  · exact .inr (.inl rfl)
  · exact .inr (.inr ⟨rfl, ‹_›, ‹_›⟩)

theorem eq_of_letters {e : Char} (hc : (c, e) ∈ letters) (hd : (d, e) ∈ letters) : c = d := by
  have hall : ∀ p ∈ letters, ∀ q ∈ letters, p.2 = q.2 → p.1 = q.1 := by decide
  exact hall _ hc _ hd rfl

theorem showChar_append_inj (h : showChar c ++ s = showChar d ++ t) : c = d ∧ s = t := by
  have hletter {c e : Char} (h : (c, e) ∈ letters) : e ≠ 'u' := by
    rintro rfl
    simp [letters] at h
  rcases showChar_cases c with ⟨e, hc, hshow⟩ | hshow | ⟨hshow, hslash, -⟩ <;>
    rcases showChar_cases d with ⟨e', hd, hshow'⟩ | hshow' | ⟨hshow', hslash', -⟩ <;>
      rw [hshow, hshow'] at h
  · simp only [List.cons_append, List.nil_append, List.cons.injEq, true_and] at h
    obtain ⟨rfl, rfl⟩ := h
    exact ⟨eq_of_letters hc hd, rfl⟩
  · exact absurd (List.cons.inj (List.cons.inj h).2).1 (hletter hc)
  · exact absurd (List.cons.inj h).1.symm hslash'
  · exact absurd (List.cons.inj (List.cons.inj h).2).1.symm (hletter hd)
  · simp only [codePoint, List.cons_append, List.append_assoc, List.cons.injEq, true_and, List.nil_append] at h
    obtain ⟨hcode, hst⟩ := toDigits_append_inj (by decide) (by decide) (by decide) h
    exact ⟨Char.toNat_inj.1 hcode, hst⟩
  · exact absurd (List.cons.inj h).1.symm hslash'
  · exact absurd (List.cons.inj h).1 hslash
  · exact absurd (List.cons.inj h).1 hslash
  · obtain ⟨rfl, rfl⟩ := List.cons.inj h
    exact ⟨rfl, rfl⟩

theorem showChar_ne_quote (c : Char) (s t : List Char) : showChar c ++ s ≠ '"' :: t := by
  intro h
  rcases showChar_cases c with ⟨e, -, hshow⟩ | hshow | ⟨hshow, -, hquote⟩ <;> rw [hshow] at h
  · exact absurd (List.cons.inj h).1 (by decide)
  · exact absurd (List.cons.inj h).1 (by decide)
  · exact hquote (List.cons.inj h).1

/-! ## Texts -/

theorem shown_append_inj (h : cs.flatMap showChar ++ '"' :: s = ds.flatMap showChar ++ '"' :: t) : cs = ds ∧ s = t := by
  induction cs generalizing ds with
  | nil =>
    cases ds with
    | nil => exact ⟨rfl, (List.cons.inj h).2⟩
    | cons d ds =>
      rw [List.flatMap_cons, List.append_assoc] at h
      exact absurd h.symm (showChar_ne_quote d _ _)
  | cons c cs ih =>
    cases ds with
    | nil =>
      rw [List.flatMap_cons, List.append_assoc] at h
      exact absurd h (showChar_ne_quote c _ _)
    | cons d ds =>
      rw [List.flatMap_cons, List.flatMap_cons, List.append_assoc, List.append_assoc] at h
      obtain ⟨rfl, hrest⟩ := showChar_append_inj h
      obtain ⟨rfl, hst⟩ := ih hrest
      exact ⟨rfl, hst⟩

/-- A quoted text is read back from any text that it begins. -/
theorem quoted_append_inj {a b : String} (h : (quoted a).toList ++ s = (quoted b).toList ++ t) : a = b ∧ s = t := by
  simp only [quoted, String.toList_ofList, List.cons_append, List.append_assoc, List.nil_append, List.cons.injEq,
    true_and] at h
  obtain ⟨hab, hst⟩ := shown_append_inj h
  exact ⟨String.toList_injective hab, hst⟩

end ServiceSchema.Text
