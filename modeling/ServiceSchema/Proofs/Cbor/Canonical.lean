import ServiceSchema.Proofs.Cbor.Item

/-! # The order of encoded keys
The bytes of a document are those of its members, each key before its value, and in every object the keys strictly
increase. What the bytes of a scalar are is said by their heads. -/
namespace ServiceSchema.Cbor
open ServiceSchema.Json

/-! ## Heads -/

/-- A head with its major type in the three high bits of the first byte. Its argument, a machine word, is in the other
bits or in the 1, 2, 4 or 8 bytes behind. -/
inductive IsHead (major n : Nat) : List UInt8 → Prop where
  | short {b : UInt8} (hn : n < 24) (hb : b.toNat = major * 32 + n) : IsHead major n [b]
  | wide {k : Nat} {b : UInt8} {argument : List UInt8} (hk : k < 4) (hb : b.toNat = major * 32 + (24 + k))
      (hlength : argument.length = 2 ^ k) (hn : ofBigEndian argument = n % 2 ^ 64) : IsHead major n (b :: argument)

theorem isHead_wide {major n k : Nat} (hm : major < 8) (hk : k < 4) (hn : n % 2 ^ 64 < 256 ^ 2 ^ k) :
    IsHead major n (UInt8.ofNat (major * 32 + (24 + k)) :: bigEndian (2 ^ k) n) := by
  refine .wide hk (Utf8.toNat_ofNat (by omega)) (bigEndian_length _ _) ?_
  have hdvd : 256 ^ 2 ^ k ∣ 2 ^ 64 := by
    have hcases : k = 0 ∨ k = 1 ∨ k = 2 ∨ k = 3 := by omega
    rcases hcases with rfl | rfl | rfl | rfl <;> decide
  rw [ofBigEndian, foldl_bigEndian, Nat.zero_mul, Nat.zero_add, ← Nat.mod_mod_of_dvd n hdvd,
    Nat.mod_eq_of_lt hn]

theorem isHead_head {major : Nat} (hm : major < 8) (n : Nat) : IsHead major n (head major n) := by
  simp only [head]
  split
  · exact .short ‹_› (Utf8.toNat_ofNat (by omega))
  · split
    · exact isHead_wide (k := 0) hm (by decide) (by omega)
    · split
      · exact isHead_wide (k := 1) hm (by decide) (by omega)
      · split
        · exact isHead_wide (k := 2) hm (by decide) (by omega)
        · exact isHead_wide (k := 3) hm (by decide) (by omega)

/-! ## Documents -/

def IsText (s : String) (bytes : List UInt8) : Prop :=
  ∃ head, IsHead 3 (Utf8.encode s.toList).length head ∧ bytes = head ++ Utf8.encode s.toList

theorem isText_encodeString (s : String) : IsText s (encodeString s) := ⟨_, isHead_head (by decide) _, rfl⟩

/-- The first byte of a double, with the format of the bits behind and how many bytes they take. -/
def doubleForms : List (UInt8 × Double.Format × Nat) := [(0xF9, .half, 2), (0xFA, .single, 4), (0xFB, .double, 8)]

/-- The bytes of a document, item by item and member by member, when the keys of every object strictly increase. -/
inductive KeysInOrder : Value → List UInt8 → Prop where
  | null : KeysInOrder .null [0xF6]
  | bool (b : Bool) : KeysInOrder (.bool b) [if b then 0xF5 else 0xF4]
  | natural {n : Int} {bytes : List UInt8} (hrange : -0x8000000000000000 ≤ n ∧ n < 0x10000000000000000) (hn : 0 ≤ n)
      (hbytes : IsHead 0 n.toNat bytes) : KeysInOrder (.number (.integer n hrange)) bytes
  | negative {n : Int} {bytes : List UInt8} (hrange : -0x8000000000000000 ≤ n ∧ n < 0x10000000000000000) (hn : n < 0)
      (hbytes : IsHead 1 (-1 - n).toNat bytes) : KeysInOrder (.number (.integer n hrange)) bytes
  | double {x : Double} {b : UInt8} {f : Double.Format} {bits : List UInt8} (hform : (b, f, bits.length) ∈ doubleForms)
      (hx : Double.ofBits f (ofBigEndian bits) = .finite x) : KeysInOrder (.number (.double x)) (b :: bits)
  | string {s : String} {bytes : List UInt8} (hbytes : IsText s bytes) : KeysInOrder (.string s) bytes
  | array {items : List Value} {head : List UInt8} {item : Value → List UInt8} (hhead : IsHead 4 items.length head)
      (h : ∀ v ∈ items, KeysInOrder v (item v)) : KeysInOrder (.array items) (head ++ items.flatMap item)
  | object {members : Members} {head : List UInt8} {key item : String × Value → List UInt8}
      (hhead : IsHead 5 members.length head)
      (horder : members.Pairwise fun m n => Utf8.encode m.1.toList < Utf8.encode n.1.toList)
      (hkeys : ∀ m ∈ members, IsText m.1 (key m)) (h : ∀ m ∈ members, KeysInOrder m.2 (item m)) :
      KeysInOrder (.object members) (head ++ members.flatMap fun m => key m ++ item m)

theorem keysInOrder_encodeDouble (x : Double) : KeysInOrder (.number (.double x)) (encodeDouble x) := by
  have hform {b : UInt8} {f : Double.Format} {width n : Nat} (hf : (b, f, width) ∈ doubleForms)
      (hlt : n < 256 ^ width) (hback : Double.ofBits f n = .finite x) :
      KeysInOrder (.number (.double x)) (b :: bigEndian width n) := by
    apply KeysInOrder.double
    · rwa [bigEndian_length]
    · rwa [ofBigEndian_bigEndian hlt]
  simp only [encodeDouble]
  cases hhalf : x.toBits? .half with
  | some n =>
    obtain ⟨hlt, hback⟩ := Double.ofBits_of_toBits? (by decide) hhalf
    exact hform (by decide) hlt hback
  | none =>
    cases hsingle : x.toBits? .single with
    | some n =>
      obtain ⟨hlt, hback⟩ := Double.ofBits_of_toBits? (by decide) hsingle
      exact hform (by decide) hlt hback
    | none =>
      obtain ⟨n, hdouble⟩ := Option.isSome_iff_exists.1 x.toBits?_double
      obtain ⟨hlt, hback⟩ := Double.ofBits_of_toBits? (by decide) hdouble
      simp only [hdouble]
      exact hform (by decide) hlt hback

theorem keysInOrder_encodeNumber (n : Number) : KeysInOrder (.number n) (encodeNumber n) := by
  cases n with
  | double x => exact keysInOrder_encodeDouble x
  | integer n hrange =>
    rw [encodeNumber]
    split
    · exact .natural hrange ‹_› (isHead_head (by decide) _)
    · exact .negative hrange (by omega) (isHead_head (by decide) _)

/-- A document whose members are in order is encoded in this order. -/
theorem keysInOrder_encode {v : Value} (h : v.Sorted) : KeysInOrder v (encode v) := by
  induction v with
  | null => exact .null
  | bool b => cases b <;> exact .bool _
  | number n => exact keysInOrder_encodeNumber n
  | string s => exact .string (isText_encodeString s)
  | array items ih =>
    rw [encode, encode_items]
    exact .array (isHead_head (by decide) _) fun v hv => ih v hv (Value.sorted_array.1 h v hv)
  | object members ih =>
    obtain ⟨hkeys, hvalues⟩ := Value.sorted_object.1 h
    rw [encode, encode_members]
    refine .object (isHead_head (by decide) _) (hkeys.imp Utf8.lt_iff_encode_lt.1) ?_ ?_
    · exact fun m _ => isText_encodeString m.1
    · exact fun m hm => ih m hm (hvalues m hm)

end ServiceSchema.Cbor
