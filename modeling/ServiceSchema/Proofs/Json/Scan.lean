import Mathlib.Algebra.Ring.Nat
import ServiceSchema.Json.Token
import ServiceSchema.Proofs.Result
import ServiceSchema.Proofs.Text.Utf8

/-! # Scanning
Every lexeme is a piece of the text from its first character on, so scanning goes through the whole text; and
no string has more bytes than the text that spells it. -/
namespace ServiceSchema.Json
open ServiceSchema.Text (byteLength byteLength_append)

theorem byteLength_le_of_suffix {cs ds : List Char} (h : cs <:+ ds) : byteLength cs ≤ byteLength ds := by
  obtain ⟨front, rfl⟩ := h
  rw [byteLength_append]
  omega

namespace Lexeme

/-! ## Keywords and numbers -/

theorem keyword_suffix {word cs rest : List Char} (h : keyword word cs = .ok rest) : rest <:+ cs := by
  induction word generalizing cs with
  | nil =>
    cases h
    exact List.suffix_refl _
  | cons k ks ih =>
    cases cs with
    | nil => cases h
    | cons c cs =>
      simp only [keyword] at h
      split at h
      · exact (ih h).trans (List.suffix_cons c cs)
      · cases h

theorem digits_suffix (cs : List Char) : (digits cs).2 <:+ cs := by
  induction cs with
  | nil => exact List.suffix_refl _
  | cons c cs ih =>
    simp only [digits]
    split
    · exact ih.trans (List.suffix_cons c cs)
    · exact List.suffix_refl _

/-- At least one character is taken. -/
theorem someDigits_suffix {cs : List Char} {r : List Nat × List Char} (h : someDigits cs = .ok r) :
    r.2 <:+ cs.tail := by
  cases cs with
  | nil => cases h
  | cons c cs =>
    simp only [someDigits, digits] at h
    cases hc : digit? c with
    | none =>
      rw [hc] at h
      cases h
    | some d =>
      rw [hc] at h
      cases h
      exact digits_suffix cs

theorem wholeDigits_suffix {cs : List Char} {r : List Nat × List Char} (h : wholeDigits cs = .ok r) :
    r.2 <:+ cs.tail := by
  unfold wholeDigits at h
  split at h
  · rename_i rest
    have hsuffix := digits_suffix rest
    split at h
    · rename_i hdigits
      cases h
      rwa [hdigits] at hsuffix
    · cases h
  · exact someDigits_suffix h

theorem fractionPart_suffix {cs : List Char} {r : Option (List Nat) × List Char}
    (h : fractionPart cs = .ok r) : r.2 <:+ cs := by
  unfold fractionPart at h
  split at h
  · obtain ⟨a, ha, rfl⟩ := map_eq_ok.1 h
    exact (someDigits_suffix ha).trans ((List.tail_suffix _).trans (List.suffix_cons _ _))
  · cases h
    exact List.suffix_refl _

theorem exponentDigits_suffix {negative : Bool} {cs : List Char} {r : Option Exponent × List Char}
    (h : exponentDigits negative cs = .ok r) : r.2 <:+ cs := by
  obtain ⟨a, ha, rfl⟩ := map_eq_ok.1 h
  exact (someDigits_suffix ha).trans (List.tail_suffix _)

theorem exponentPart_suffix {cs : List Char} {r : Option Exponent × List Char}
    (h : exponentPart cs = .ok r) : r.2 <:+ cs := by
  unfold exponentPart at h
  split at h
  · split at h
    · split at h
      · exact (exponentDigits_suffix h).trans ((List.suffix_cons _ _).trans (List.suffix_cons _ _))
      · exact (exponentDigits_suffix h).trans ((List.suffix_cons _ _).trans (List.suffix_cons _ _))
      · exact (exponentDigits_suffix h).trans (List.suffix_cons _ _)
    · cases h
      exact List.suffix_refl _
  · cases h
    exact List.suffix_refl _

theorem readNumber_suffix {negative : Bool} {cs : List Char} {r : Number × List Char}
    (h : readNumber negative cs = .ok r) : r.2 <:+ cs.tail := by
  obtain ⟨⟨x, rest⟩, hx, h⟩ := bind_eq_ok.1 h
  obtain ⟨⟨whole, cs₁⟩, hwhole, hx⟩ := bind_eq_ok.1 hx
  obtain ⟨⟨fraction, cs₂⟩, hfraction, hx⟩ := bind_eq_ok.1 hx
  obtain ⟨⟨exponent, cs₃⟩, hexponent, hx⟩ := bind_eq_ok.1 hx
  cases hx
  have hrest := ((exponentPart_suffix hexponent).trans (fractionPart_suffix hfraction)).trans
    (wholeDigits_suffix hwhole)
  simp only at h
  split at h
  · cases h
    exact hrest
  · cases h

/-! ## Strings -/

theorem utf8Size_of_simpleEscape? {e d : Char} (h : simpleEscape? e = some d) : d.utf8Size = 1 := by
  simp only [simpleEscape?] at h
  repeat' split at h
  all_goals cases h
  all_goals rfl

theorem suffix_escape {rest cs : List Char} {h₁ h₂ h₃ h₄ : Char} (h : rest <:+ cs) :
    rest <:+ '\\' :: 'u' :: h₁ :: h₂ :: h₃ :: h₄ :: cs :=
  h.trans ⟨['\\', 'u', h₁, h₂, h₃, h₄], rfl⟩

theorem byteLength_escape (h₁ h₂ h₃ h₄ : Char) (cs : List Char) :
    byteLength cs + 6 ≤ byteLength ('\\' :: 'u' :: h₁ :: h₂ :: h₃ :: h₄ :: cs) := by
  have p₁ := h₁.utf8Size_pos
  have p₂ := h₂.utf8Size_pos
  have p₃ := h₃.utf8Size_pos
  have p₄ := h₄.utf8Size_pos
  have p₅ : 0 < '\\'.utf8Size := Char.utf8Size_pos _
  have p₆ : 0 < 'u'.utf8Size := Char.utf8Size_pos _
  simp only [byteLength]
  omega

/-- A string and the text behind it have fewer bytes than the text that spells both: an escape is never
shorter than the character it stands for. -/
theorem stringBody_bytes {lead : Option Nat} {cs : List Char} {r : List Char × List Char}
    (h : stringBody lead cs = .ok r) :
    r.2 <:+ cs ∧ byteLength r.1 + byteLength r.2 < byteLength cs := by
  fun_induction stringBody lead cs generalizing r with
  | case4 h₁ h₂ h₃ h₄ rest n m hquad htrail ih =>
    obtain ⟨a, ha, rfl⟩ := map_eq_ok.1 h
    obtain ⟨hsuffix, hbytes⟩ := ih ha
    have hchar := (pairedChar m n).utf8Size_le_four
    have hescape := byteLength_escape h₁ h₂ h₃ h₄ rest
    refine ⟨suffix_escape hsuffix, ?_⟩
    change (pairedChar m n).utf8Size + byteLength a.1 + byteLength a.2 < _
    omega
  | case7 h₁ h₂ h₃ h₄ rest n hquad htrail hlead ih =>
    obtain ⟨hsuffix, hbytes⟩ := ih h
    have hescape := byteLength_escape h₁ h₂ h₃ h₄ rest
    exact ⟨suffix_escape hsuffix, by omega⟩
  | case8 h₁ h₂ h₃ h₄ rest n hquad htrail hlead ih =>
    obtain ⟨a, ha, rfl⟩ := map_eq_ok.1 h
    obtain ⟨hsuffix, hbytes⟩ := ih ha
    have hchar := (Char.ofNat n).utf8Size_le_four
    have hescape := byteLength_escape h₁ h₂ h₃ h₄ rest
    refine ⟨suffix_escape hsuffix, ?_⟩
    change (Char.ofNat n).utf8Size + byteLength a.1 + byteLength a.2 < _
    omega
  | case11 lead e es hu hnone d hd ih =>
    obtain ⟨a, ha, rfl⟩ := map_eq_ok.1 h
    obtain ⟨hsuffix, hbytes⟩ := ih ha
    have hone := utf8Size_of_simpleEscape? hd
    have hpos := e.utf8Size_pos
    have hslash : 0 < '\\'.utf8Size := Char.utf8Size_pos _
    refine ⟨hsuffix.trans ((List.suffix_cons _ _).trans (List.suffix_cons _ _)), ?_⟩
    simp only [byteLength]
    omega
  | case14 lead cs hnone hquote =>
    cases h
    refine ⟨List.suffix_cons _ _, ?_⟩
    simp only [byteLength, Nat.zero_add]
    have : 0 < '"'.utf8Size := Char.utf8Size_pos _
    omega
  | case16 lead c cs hescape hnone hquote hcontrol ih =>
    obtain ⟨a, ha, rfl⟩ := map_eq_ok.1 h
    obtain ⟨hsuffix, hbytes⟩ := ih ha
    refine ⟨hsuffix.trans (List.suffix_cons _ _), ?_⟩
    simp only [byteLength]
    omega
  | _ => cases h

/-! ## All lexemes -/

def weight : Lexeme → Nat
  | .string s => s.utf8ByteSize + 1
  | _ => 1

theorem orBroken_of_forall {α : Type} {motive : Lexeme × List Char → Prop} {broken : Fault → Lexeme}
    {f : α → Lexeme} {r : Except Fault (α × List Char)} (hok : ∀ a rest, r = .ok (a, rest) → motive (f a, rest))
    (herror : ∀ e, motive (broken e, [])) : motive (orBroken broken f r) := by
  cases r with
  | ok a => exact hok a.1 a.2 rfl
  | error e => exact herror e

/-- What holds of every kind of lexeme, with what is behind it, holds of the lexeme read. -/
theorem read_cases {motive : Lexeme × List Char → Prop} (c : Char) {cs : List Char}
    (hlight : ∀ l rest, l.weight = 1 → rest <:+ cs → motive (l, rest))
    (hstring : ∀ r, stringBody none cs = .ok r → motive (.string (String.ofList r.1), r.2)) :
    motive (read c cs) := by
  have hpunctuation (l : Lexeme) (hl : l.weight = 1) : motive (l, cs) := hlight l cs hl (List.suffix_refl _)
  have hbroken (l : Lexeme) (hl : l.weight = 1) : motive (l, []) := hlight l [] hl List.nil_suffix
  have hkeyword (word : List Char) (l : Lexeme) (hl : l.weight = 1) :
      motive (orBroken .broken (fun _ => l) ((keyword word cs).map ((), ·))) := by
    refine orBroken_of_forall (fun a rest h => ?_) fun e => hbroken _ rfl
    obtain ⟨_, hrest, heq⟩ := map_eq_ok.1 h
    cases heq
    exact hlight l rest hl (keyword_suffix hrest)
  unfold read
  refine iteInduction (fun _ => hpunctuation _ rfl) fun _ => ?_
  refine iteInduction (fun _ => hpunctuation _ rfl) fun _ => ?_
  refine iteInduction (fun _ => hpunctuation _ rfl) fun _ => ?_
  refine iteInduction (fun _ => hpunctuation _ rfl) fun _ => ?_
  refine iteInduction (fun _ => hpunctuation _ rfl) fun _ => ?_
  refine iteInduction (fun _ => hpunctuation _ rfl) fun _ => ?_
  refine iteInduction (fun _ => hkeyword _ _ rfl) fun _ => ?_
  refine iteInduction (fun _ => hkeyword _ _ rfl) fun _ => ?_
  refine iteInduction (fun _ => hkeyword _ _ rfl) fun _ => ?_
  refine iteInduction (fun _ => ?_) fun _ => iteInduction (fun _ => ?_) fun _ => ?_
  · exact orBroken_of_forall (fun s rest h => hstring (s, rest) h) fun e => hbroken _ rfl
  · refine orBroken_of_forall (fun n rest h => hlight _ rest rfl ?_) fun e => hbroken _ rfl
    exact (readNumber_suffix h).trans (List.tail_suffix _)
  · refine iteInduction (fun _ => ?_) fun _ => hbroken _ rfl
    exact orBroken_of_forall (fun n rest h => hlight _ rest rfl (readNumber_suffix h)) fun e => hbroken _ rfl

/-- What is behind a lexeme is the end of what was behind its first character. -/
theorem read_suffix (c : Char) (cs : List Char) : (read c cs).2 <:+ cs :=
  read_cases (motive := fun r => r.2 <:+ cs) c (fun _ _ _ h => h) fun _ h => (stringBody_bytes h).1

/-- A lexeme weighs no more than the characters it is made of. -/
theorem read_weight (c : Char) (cs : List Char) :
    (read c cs).1.weight + byteLength (read c cs).2 ≤ byteLength (c :: cs) := by
  have hpos := c.utf8Size_pos
  have hcons : byteLength (c :: cs) = c.utf8Size + byteLength cs := rfl
  refine read_cases (motive := fun r => r.1.weight + byteLength r.2 ≤ byteLength (c :: cs)) c ?_ ?_
  · intro l rest hl h
    have := byteLength_le_of_suffix h
    simp only [hl]
    omega
  · intro r h
    have hbytes := (stringBody_bytes h).2
    have hstring : (String.ofList r.1).utf8ByteSize = byteLength r.1 := by
      rw [← Utf8.byteLength_toList, String.toList_ofList]
    simp only [weight, hstring]
    omega

end Lexeme

namespace Token

/-- Scanning does not depend on how many characters it expects, if they suffice. -/
theorem scanWithin_eq {n m : Nat} {cs : List Char} (hn : cs.length ≤ n) (hm : cs.length ≤ m) :
    scanWithin n cs = scanWithin m cs := by
  induction n generalizing m cs with
  | zero =>
    obtain rfl := List.length_eq_zero_iff.1 (Nat.le_zero.1 hn)
    cases m <;> rfl
  | succ n ih =>
    cases cs with
    | nil => cases m <;> rfl
    | cons c cs =>
      cases m with
      | zero => exact absurd hm (by simp)
      | succ m =>
        have hlen := (Lexeme.read_suffix c cs).length_le
        simp only [List.length_cons] at hn hm
        simp only [scanWithin]
        have hrest : scanWithin n (Lexeme.read c cs).2 = scanWithin m (Lexeme.read c cs).2 := ih (by omega) (by omega)
        rw [hrest, ih (Nat.le_of_succ_le_succ hn) (Nat.le_of_succ_le_succ hm)]

theorem scan_blank {c : Char} (h : isBlank c) (cs : List Char) : scan (c :: cs) = scan cs := by
  simp only [scan, List.length_cons, scanWithin, h, if_true]

theorem scan_lexeme {c : Char} (h : isBlank c = false) (cs : List Char) :
    scan (c :: cs) = ⟨(Lexeme.read c cs).1, c :: cs⟩ :: scan (Lexeme.read c cs).2 := by
  have hlen := (Lexeme.read_suffix c cs).length_le
  simp only [scan, List.length_cons, scanWithin, h, Bool.false_eq_true, if_false]
  rw [scanWithin_eq hlen (Nat.le_refl _)]

/-- All tokens of a text together weigh no more than its bytes. -/
theorem scan_weight (cs : List Char) : ((scan cs).map fun t => t.lexeme.weight).sum ≤ byteLength cs := by
  have h (n : Nat) : ∀ cs, ((scanWithin n cs).map fun t => t.lexeme.weight).sum ≤ byteLength cs := by
    induction n with
    | zero => simp [scanWithin]
    | succ n ih =>
      intro cs
      cases cs with
      | nil => simp [scanWithin]
      | cons c cs =>
        simp only [scanWithin]
        split
        · have := ih cs
          simp only [byteLength]
          omega
        · have := ih (Lexeme.read c cs).2
          have := Lexeme.read_weight c cs
          simp only [List.map_cons, List.sum_cons]
          omega
  exact h cs.length cs

end Token
end ServiceSchema.Json
