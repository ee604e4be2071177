import ServiceSchema.Cbor.Encoder
import ServiceSchema.Proofs.Double.Interchange
import ServiceSchema.Proofs.Text.Utf8

/-! # Heads read back
The shortest head of an item and the bytes of a double are read as what was written, whatever follows. -/
namespace ServiceSchema.Cbor
open ServiceSchema.Utf8 (toNat_ofNat)

/-! ## Big-endian numbers -/

theorem foldl_bigEndian (width n acc : Nat) :
    (bigEndian width n).foldl (fun n b => n * 256 + b.toNat) acc = acc * 256 ^ width + n % 256 ^ width := by
  induction width generalizing acc with
  | zero => simp [bigEndian, Nat.mod_one]
  | succ w ih =>
    have hb : (UInt8.ofNat (n / Nat.pow 256 w % 256)).toNat = n / 256 ^ w % 256 := toNat_ofNat (by omega)
    rw [bigEndian, List.foldl_cons, ih, hb, Nat.add_mul, Nat.mul_assoc, ← Nat.pow_succ', Nat.add_assoc,
      Nat.pow_succ 256 w, Nat.mod_mul, Nat.mul_comm (n / 256 ^ w % 256), Nat.add_comm (n % 256 ^ w)]

theorem ofBigEndian_bigEndian {width n : Nat} (h : n < 256 ^ width) : ofBigEndian (bigEndian width n) = n := by
  rw [ofBigEndian, foldl_bigEndian, Nat.mod_eq_of_lt h]
  omega

namespace Head

theorem argument_bigEndian {width n : Nat} (h : n < 256 ^ width) (rest : List UInt8) :
    argument width (bigEndian width n ++ rest) = .ok (n, rest) := by
  have hlen := bigEndian_length width n
  simp only [argument]
  rw [if_neg (by rw [List.length_append]; omega), List.take_left' hlen, List.drop_left' hlen,
    ofBigEndian_bigEndian h]

/-- A head whose argument stands in its first byte. -/
theorem read_short {major n : Nat} {h : Head} (hm : major < 7) (hn : n < 24) (rest : List UInt8)
    (hh : ∀ left, ofMajor left major (some n) = .ok h) :
    read (UInt8.ofNat (major * 32 + n) :: rest) = .ok (h, rest) := by
  have hb : (UInt8.ofNat (major * 32 + n)).toNat = major * 32 + n := toNat_ofNat (by omega)
  have hdiv : (major * 32 + n) / 32 = major := by omega
  have hmod : (major * 32 + n) % 32 = n := by omega
  have hne : major ≠ 7 := by omega
  simp only [read, hb, hdiv, hmod, hn, hne, if_true, if_false, hh]
  rfl

/-- A head whose argument takes `2 ^ k` bytes of its own. -/
theorem read_wide {major k n : Nat} {h : Head} (hm : major < 7) (hk : k < 4) (hn : n < 256 ^ 2 ^ k)
    (rest : List UInt8) (hh : ∀ left, ofMajor left major (some n) = .ok h) :
    read (UInt8.ofNat (major * 32 + (24 + k)) :: (bigEndian (2 ^ k) n ++ rest)) = .ok (h, rest) := by
  have hb : (UInt8.ofNat (major * 32 + (24 + k))).toNat = major * 32 + (24 + k) := toNat_ofNat (by omega)
  have hdiv : (major * 32 + (24 + k)) / 32 = major := by omega
  have hmod : (major * 32 + (24 + k)) % 32 = 24 + k := by omega
  have hne : major ≠ 7 := by omega
  have hlow : ¬ 24 + k < 24 := by omega
  have hhigh : 24 + k < 28 := by omega
  simp only [read, hb, hdiv, hmod, hlow, hhigh, hne, if_true, if_false, Nat.add_sub_cancel_left, Nat.pow_eq,
    argument_bigEndian hn, hh]
  rfl

/-- A head is read as it was written. -/
theorem read_head (major n : Nat) {h : Head} (hm : major < 7) (hn : n < 2 ^ 64) (rest : List UInt8)
    (hh : ∀ left, ofMajor left major (some n) = .ok h) : read (head major n ++ rest) = .ok (h, rest) := by
  simp only [head]
  split
  · rename_i h0
    exact read_short hm h0 rest hh
  · split
    · exact read_wide (k := 0) hm (by decide) (by omega) rest hh
    · split
      · exact read_wide (k := 1) hm (by decide) (by omega) rest hh
      · split
        · exact read_wide (k := 2) hm (by decide) (by omega) rest hh
        · exact read_wide (k := 3) hm (by decide) (by omega) rest hh

/-- A number of major type seven in `2 ^ k` bytes of its own. -/
theorem read_other {k n : Nat} (hk : k < 4) (hn : n < 256 ^ 2 ^ k) (rest : List UInt8) :
    read (UInt8.ofNat (7 * 32 + (24 + k)) :: (bigEndian (2 ^ k) n ++ rest)) = .ok (ofOther (2 ^ k) n, rest) := by
  have hb : (UInt8.ofNat (7 * 32 + (24 + k))).toNat = 7 * 32 + (24 + k) := toNat_ofNat (by omega)
  have hdiv : (7 * 32 + (24 + k)) / 32 = 7 := by omega
  have hmod : (7 * 32 + (24 + k)) % 32 = 24 + k := by omega
  have hlow : ¬ 24 + k < 24 := by omega
  have hhigh : 24 + k < 28 := by omega
  simp only [read, hb, hdiv, hmod, hlow, hhigh, if_true, if_false, Nat.add_sub_cancel_left, Nat.pow_eq,
    argument_bigEndian hn]

/-- Whichever precision a double travels in, it is read as the same double. -/
theorem read_encodeDouble (x : Double) (rest : List UInt8) :
    read (encodeDouble x ++ rest) = .ok (.float (.finite x), rest) := by
  simp only [encodeDouble]
  cases hhalf : x.toBits? .half with
  | some n =>
    obtain ⟨hlt, hback⟩ := Double.ofBits_of_toBits? (by decide) hhalf
    have h := read_other (k := 1) (by decide) hlt rest
    rwa [show ofOther (2 ^ 1) n = .float (.finite x) from congrArg Head.float hback] at h
  | none =>
    cases hsingle : x.toBits? .single with
    | some n =>
      obtain ⟨hlt, hback⟩ := Double.ofBits_of_toBits? (by decide) hsingle
      have h := read_other (k := 2) (by decide) hlt rest
      rwa [show ofOther (2 ^ 2) n = .float (.finite x) from congrArg Head.float hback] at h
    | none =>
      obtain ⟨n, hdouble⟩ := Option.isSome_iff_exists.1 x.toBits?_double
      obtain ⟨hlt, hback⟩ := Double.ofBits_of_toBits? (by decide) hdouble
      have h := read_other (k := 3) (by decide) hlt rest
      rw [show ofOther (2 ^ 3) n = .float (.finite x) from congrArg Head.float hback] at h
      simp only [hdouble]
      exact h

end Head
end ServiceSchema.Cbor
