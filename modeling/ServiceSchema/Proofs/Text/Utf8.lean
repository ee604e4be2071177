import ServiceSchema.Text.Position
import ServiceSchema.Text.Utf8
import Mathlib.Tactic.SplitIfs

/-! # The laws of UTF-8
Every text is read back from its bytes, its size is the number of its bytes, no text is larger than bytes it was
read from, and the order of texts is that of their bytes. -/
namespace ServiceSchema.Utf8

theorem toNat_ofNat {n : Nat} (h : n < 0x100) : (UInt8.ofNat n).toNat = n := by
  rw [UInt8.toNat_ofNat']
  exact Nat.mod_eq_of_lt h

theorem toNat_lt (c : Char) : c.toNat < 0x110000 := by
  have h : c.toNat.isValidChar := c.valid
  simp only [Nat.isValidChar] at h
  omega

/-! ## Reading back -/

theorem tail?_ofNat {n : Nat} (h : n < 0x40) : tail? (UInt8.ofNat (0x80 + n)) = some n := by
  have hb : (UInt8.ofNat (0x80 + n)).toNat = 0x80 + n := toNat_ofNat (by omega)
  simp only [tail?, hb]
  rw [if_pos ⟨by omega, by omega⟩, Nat.add_sub_cancel_left]

theorem char?_toNat {c : Char} {least : Nat} (h : least ≤ c.toNat) : char? least c.toNat = some c := by
  have hv : c.toNat.isValidChar := c.valid
  rw [char?, dif_pos ⟨hv, h⟩]
  rfl

theorem split_ascii {a : UInt8} {rest : List UInt8} (ha : a.toNat < 0x80) :
    split (a :: rest) = (Char.ofNat a.toNat :: (split rest).1, (split rest).2) := by
  rw [split.eq_def]
  simp only [ha, if_true]

theorem split_two {a b : UInt8} {c : Char} {rest : List UInt8} (ha : 0xC0 ≤ a.toNat)
    (h : two? a b = some c) : split (a :: b :: rest) = (c :: (split rest).1, (split rest).2) := by
  have h1 : ¬ a.toNat < 0x80 := by omega
  have h2 : ¬ a.toNat < 0xC0 := by omega
  rw [split.eq_def]
  simp only [h1, h2, if_false, h]

theorem split_three {a b c : UInt8} {x : Char} {rest : List UInt8} (ha : 0xE0 ≤ a.toNat)
    (h : three? a b c = some x) : split (a :: b :: c :: rest) = (x :: (split rest).1, (split rest).2) := by
  have h1 : ¬ a.toNat < 0x80 := by omega
  have h2 : ¬ a.toNat < 0xC0 := by omega
  have htwo : two? a b = none := if_neg (by omega)
  rw [split.eq_def]
  simp only [h1, h2, if_false, htwo, h]

theorem split_four {a b c d : UInt8} {x : Char} {rest : List UInt8} (ha : 0xF0 ≤ a.toNat)
    (h : four? a b c d = some x) :
    split (a :: b :: c :: d :: rest) = (x :: (split rest).1, (split rest).2) := by
  have h1 : ¬ a.toNat < 0x80 := by omega
  have h2 : ¬ a.toNat < 0xC0 := by omega
  have htwo : two? a b = none := if_neg (by omega)
  have hthree : three? a b c = none := if_neg (by omega)
  rw [split.eq_def]
  simp only [h1, h2, if_false, htwo, hthree, h]

/-- Reading takes a written character off. -/
theorem split_encodeChar (c : Char) (rest : List UInt8) :
    split (encodeChar c ++ rest) = (c :: (split rest).1, (split rest).2) := by
  have hlt := toNat_lt c
  simp only [encodeChar]
  split
  · rename_i h1
    have ha : (UInt8.ofNat c.toNat).toNat = c.toNat := toNat_ofNat (by omega)
    rw [List.cons_append, split_ascii (by omega), ha, Char.ofNat_toNat, List.nil_append]
  · split
    · have ha : (UInt8.ofNat (0xC0 + c.toNat / 0x40)).toNat = 0xC0 + c.toNat / 0x40 := toNat_ofNat (by omega)
      have hc : (0xC0 + c.toNat / 0x40 - 0xC0) * 0x40 + c.toNat % 0x40 = c.toNat := by omega
      refine split_two (by omega) ?_
      rw [two?, if_pos (by omega), tail?_ofNat (by omega), Option.bind_some, ha, hc, char?_toNat (by omega)]
    · split
      · have ha : (UInt8.ofNat (0xE0 + c.toNat / 0x1000)).toNat = 0xE0 + c.toNat / 0x1000 :=
          toNat_ofNat (by omega)
        have hc : ((0xE0 + c.toNat / 0x1000 - 0xE0) * 0x40 + c.toNat / 0x40 % 0x40) * 0x40 + c.toNat % 0x40
            = c.toNat := by omega
        refine split_three (by omega) ?_
        rw [three?, if_pos (by omega), tail?_ofNat (by omega), tail?_ofNat (by omega), Option.bind_some,
          Option.bind_some, ha, hc, char?_toNat (by omega)]
      · have ha : (UInt8.ofNat (0xF0 + c.toNat / 0x40000)).toNat = 0xF0 + c.toNat / 0x40000 :=
          toNat_ofNat (by omega)
        have hc : (((0xF0 + c.toNat / 0x40000 - 0xF0) * 0x40 + c.toNat / 0x1000 % 0x40) * 0x40
            + c.toNat / 0x40 % 0x40) * 0x40 + c.toNat % 0x40 = c.toNat := by omega
        refine split_four (by omega) ?_
        rw [four?, if_pos (by omega), tail?_ofNat (by omega), tail?_ofNat (by omega), tail?_ofNat (by omega),
          Option.bind_some, Option.bind_some, Option.bind_some, ha, hc, char?_toNat (by omega)]

theorem split_encode (cs : List Char) : split (encode cs) = (cs, []) := by
  induction cs with
  | nil => rfl
  | cons c cs ih => rw [encode_cons, split_encodeChar, ih]

theorem decode?_encode (cs : List Char) : decode? (encode cs) = some cs := by
  simp only [decode?, split_encode]

/-! ## Sizes -/

theorem utf8Size_eq (c : Char) :
    c.utf8Size = if c.toNat ≤ 127 then 1 else if c.toNat ≤ 2047 then 2 else if c.toNat ≤ 65535 then 3 else 4 := by
  simp only [Char.utf8Size, UInt32.le_iff_toNat_le]
  rfl

theorem length_encodeChar (c : Char) : (encodeChar c).length = c.utf8Size := by
  simp only [encodeChar, utf8Size_eq]
  split_ifs <;> first | rfl | omega

theorem length_encode (cs : List Char) : (encode cs).length = Text.byteLength cs := by
  induction cs with
  | nil => rfl
  | cons c cs ih => rw [encode_cons, List.length_append, length_encodeChar, ih, Text.byteLength]

theorem byteLength_toList (s : String) : Text.byteLength s.toList = s.utf8ByteSize := by
  rw [← String.size_toByteArray, ← String.utf8Encode_toList]
  induction s.toList with
  | nil => rfl
  | cons c cs ih =>
    have hc : [c].utf8Encode.size = c.utf8Size := by
      rw [← String.utf8ByteSize_singleton, ← String.size_toByteArray, ← String.utf8Encode_toList,
        String.toList_singleton]
    rw [← List.singleton_append, List.utf8Encode_append, ByteArray.size_append, ← ih, hc]
    rfl

theorem length_encode_toList (s : String) : (encode s.toList).length = s.utf8ByteSize := by
  rw [length_encode, byteLength_toList]

/-! ## What reading takes -/

theorem toNat_of_char? {least n : Nat} {c : Char} (h : char? least n = some c) : c.toNat = n := by
  by_cases hvalid : n.isValidChar ∧ least ≤ n
  · rw [char?, dif_pos hvalid] at h
    cases h
    rfl
  · rw [char?, dif_neg hvalid] at h
    cases h

theorem lt_of_tail? {b : UInt8} {n : Nat} (h : tail? b = some n) : n < 0x40 := by
  simp only [tail?, Option.ite_none_right_eq_some, Option.some.injEq] at h
  omega

theorem utf8Size_of_two? {a b : UInt8} {c : Char} (h : two? a b = some c) : c.utf8Size ≤ 2 := by
  simp only [two?, Option.ite_none_right_eq_some, Option.bind_eq_some_iff] at h
  obtain ⟨ha, n, hn, hc⟩ := h
  have hcode := toNat_of_char? hc
  have hbits := lt_of_tail? hn
  rw [utf8Size_eq]
  split_ifs <;> omega

theorem utf8Size_of_three? {a b c : UInt8} {x : Char} (h : three? a b c = some x) : x.utf8Size ≤ 3 := by
  simp only [three?, Option.ite_none_right_eq_some, Option.bind_eq_some_iff] at h
  obtain ⟨ha, n, hn, m, hm, hx⟩ := h
  have hcode := toNat_of_char? hx
  have hbits := lt_of_tail? hn
  have hmore := lt_of_tail? hm
  rw [utf8Size_eq]
  split_ifs <;> omega

/-- The characters of the well-formed prefix take no more bytes than they were read from. -/
theorem byteLength_split (bytes : List UInt8) :
    Text.byteLength (split bytes).1 + (split bytes).2.length ≤ bytes.length := by
  fun_induction split bytes with
  | case2 a rest ha ih =>
    have hcode : (Char.ofNat a.toNat).toNat = a.toNat := by
      rw [Char.ofNat, dif_pos (.inl (by omega))]
      rfl
    have hsize : (Char.ofNat a.toNat).utf8Size = 1 := by rw [utf8Size_eq, if_pos (by omega)]
    simp only [Text.byteLength, List.length_cons, hsize]
    omega
  | case5 a _ _ b rest x hx ih =>
    have hsize := utf8Size_of_two? hx
    simp only [Text.byteLength, List.length_cons]
    omega
  | case7 a _ _ b _ c rest x hx ih =>
    have hsize := utf8Size_of_three? hx
    simp only [Text.byteLength, List.length_cons]
    omega
  | case9 a _ _ b _ c _ d rest x hx ih =>
    have hsize := x.utf8Size_le_four
    simp only [Text.byteLength, List.length_cons]
    omega
  | _ => simp [Text.byteLength]

theorem byteLength_decode? {bytes : List UInt8} {cs : List Char} (h : decode? bytes = some cs) :
    Text.byteLength cs ≤ bytes.length := by
  have hsplit := byteLength_split bytes
  unfold decode? at h
  split at h
  · rename_i heq
    cases h
    simpa [heq] using hsplit
  · cases h

/-! ## Order -/

/-- Byte lists are compared from the front. -/
theorem cons_lt_cons {a b : Nat} {x y : List UInt8} (hb : b < 0x100) (hle : a ≤ b) (h : a = b → x < y) :
    UInt8.ofNat a :: x < UInt8.ofNat b :: y := by
  refine List.cons_lt_cons_iff.2 ?_
  rcases Nat.lt_or_eq_of_le hle with hlt | rfl
  · left
    rw [UInt8.lt_iff_toNat_lt, toNat_ofNat (by omega), toNat_ofNat hb]
    exact hlt
  · exact .inr ⟨rfl, h rfl⟩

/-- Of two characters the smaller one has the smaller bytes, whatever follows. -/
theorem encodeChar_append_lt {c d : Char} (h : c.toNat < d.toNat) (x y : List UInt8) :
    encodeChar c ++ x < encodeChar d ++ y := by
  have hd := toNat_lt d
  simp only [encodeChar]
  split_ifs <;> simp only [List.cons_append, List.nil_append]
  -- sizes apart show in the first byte; with equal sizes some byte is the first to differ
  all_goals repeat first | omega | refine cons_lt_cons (by omega) (by omega) fun _ => ?_

theorem encode_lt_encode {cs ds : List Char} (h : cs < ds) : encode cs < encode ds := by
  induction cs generalizing ds with
  | nil =>
    cases ds with
    | nil => exact absurd h (List.lt_irrefl _)
    | cons d ds =>
      have hpos : 0 < (encodeChar d).length := by rw [length_encodeChar]; exact d.utf8Size_pos
      obtain ⟨b, bs, hb⟩ := List.exists_cons_of_length_pos hpos
      simp [hb]
  | cons c cs ih =>
    cases ds with
    | nil => exact absurd h (List.not_lt_nil _)
    | cons d ds =>
      rw [encode_cons, encode_cons]
      rcases List.cons_lt_cons_iff.1 h with hlt | ⟨rfl, hlt⟩
      · exact encodeChar_append_lt hlt _ _
      · exact List.append_left_lt (ih hlt)

/-- Texts are ordered like their bytes. -/
theorem lt_iff_encode_lt {s t : String} : s < t ↔ encode s.toList < encode t.toList := by
  rw [String.lt_iff]
  refine ⟨encode_lt_encode, fun h => ?_⟩
  refine List.not_le.1 fun hle => List.lt_irrefl (encode s.toList) ?_
  rcases List.le_iff_lt_or_eq.1 hle with hlt | heq
  · exact List.lt_trans h (encode_lt_encode hlt)
  · exact heq ▸ h

end ServiceSchema.Utf8
