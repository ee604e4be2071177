import ServiceSchema.Cbor.Decoder
import ServiceSchema.Proofs.Cbor.Head
import ServiceSchema.Proofs.Json.Value

/-! # Items read back
A written item is read as the value it was written from, whatever follows, unless the first key of an object
in it is too long for a window: then reading fails. -/
namespace ServiceSchema.Cbor
open ServiceSchema.Json

/-! ## Texts and keys -/

theorem text_encode (left : Nat) (cs : List Char) (rest : List UInt8) :
    text left (Utf8.encode cs).length (Utf8.encode cs ++ rest) = .ok (cs, rest) := by
  simp only [text]
  rw [if_pos (by simp), List.take_left, List.drop_left, Utf8.decode?_encode]

theorem read_encodeString {s : String} (hs : s.utf8ByteSize < 2 ^ 64) (rest : List UInt8) :
    Head.read (encodeString s ++ rest)
      = .ok (.text (some (Utf8.encode s.toList).length), Utf8.encode s.toList ++ rest) := by
  rw [encodeString, List.append_assoc]
  exact Head.read_head 3 _ (by decide) (by rwa [Utf8.length_encode_toList]) _ fun _ => rfl

theorem textItem_encode (s : String) (rest : List UInt8) :
    textItem (some (Utf8.encode s.toList).length) (Utf8.encode s.toList ++ rest) = .ok (s, rest) := by
  simp only [textItem, text_encode, Except.map, String.ofList_toList]

theorem firstKey_encodeString {s : String} (hs : s.utf8ByteSize < 2 ^ 64) (fuel : Nat) (pushed : Bool)
    (rest : List UInt8) :
    firstKey (fuel + 1) pushed (encodeString s ++ rest)
      = if s.utf8ByteSize ≤ windowSize then .ok (s, rest) else .error (.mismatch .string .firstKey) := by
  simp only [firstKey, read_encodeString hs, bind, Except.bind, text_encode, Except.map, String.ofList_toList]
  rw [Utf8.length_encode_toList]
  rfl

theorem laterKey_encodeString {s : String} (hs : s.utf8ByteSize < 2 ^ 64) (fuel : Nat) (rest : List UInt8) :
    laterKey (fuel + 1) (encodeString s ++ rest) = .ok (s, rest) := by
  simp only [laterKey, read_encodeString hs, bind, Except.bind, textItem_encode]

/-! ## Containers -/

/-- Items that are read back one by one are read back as a list. -/
theorem exactly_flatMap {α : Type} {read : Bool → List UInt8 → Except Fault (α × List UInt8)}
    {write : α → List UInt8} {fits : α → Bool} {fault : Fault} {as : List α} (rest : List UInt8)
    (h : ∀ a ∈ as, ∀ rest, read false (write a ++ rest) = if fits a then .ok (a, rest) else .error fault) :
    exactly read false as.length (as.flatMap write ++ rest)
      = if as.all fits then .ok (as, rest) else .error fault := by
  induction as with
  | nil => rfl
  | cons a as ih =>
    have ha := h a List.mem_cons_self (as.flatMap write ++ rest)
    have has := ih fun b hb => h b (List.mem_cons_of_mem _ hb)
    rw [List.length_cons, exactly, List.flatMap_cons, List.append_assoc, ha, List.all_cons]
    cases fits a with
    | false => rfl
    | true =>
      simp only [if_true, bind, Except.bind, has, Bool.true_and]
      cases as.all fits <;> rfl

theorem encode_items (vs : List Value) : encode.items vs = vs.flatMap encode := by
  induction vs with
  | nil => rfl
  | cons v vs ih => rw [encode.items, ih, List.flatMap_cons]

def encodeMember (m : String × Value) : List UInt8 := encodeString m.1 ++ encode m.2

theorem encode_members (ms : Members) : encode.members ms = ms.flatMap encodeMember := by
  induction ms with
  | nil => rfl
  | cons m ms ih => rw [encode.members, ih, List.flatMap_cons, encodeMember]

/-- The first key of every object fits in a window. -/
def leadsFit : Value → Bool
  | .array vs => items vs
  | .object [] => true
  | .object ((k, v) :: ms) => k.utf8ByteSize ≤ windowSize && leadsFit v && members ms
  | _ => true
where
  items : List Value → Bool
  | [] => true
  | v :: vs => leadsFit v && items vs
  members : List (String × Value) → Bool
  | [] => true
  | (_, v) :: ms => leadsFit v && members ms

theorem leadsFit_items (vs : List Value) : leadsFit.items vs = vs.all leadsFit := by
  induction vs with
  | nil => rfl
  | cons v vs ih => rw [leadsFit.items, ih, List.all_cons]

theorem leadsFit_members (ms : Members) : leadsFit.members ms = ms.all fun m => leadsFit m.2 := by
  induction ms with
  | nil => rfl
  | cons m ms ih => rw [leadsFit.members, ih, List.all_cons]

/-! ## Items -/

/-- What reading a written item comes to. -/
def readBack (v : Value) (rest : List UInt8) : Except Fault (Value × List UInt8) :=
  if leadsFit v then .ok (v, rest) else .error (.mismatch .string .firstKey)

theorem exactly_ignoring_first {α : Type} (read : List UInt8 → Except Fault (α × List UInt8)) (n : Nat)
    (bytes : List UInt8) : exactly (fun _ => read) true n bytes = exactly (fun _ => read) false n bytes := by
  cases n <;> rfl

theorem entry_encodeMember {n : Nat} {m : String × Value} (hk : m.1.utf8ByteSize < 2 ^ 64)
    (hv : ∀ rest, item n (encode m.2 ++ rest) = readBack m.2 rest) (pushed first : Bool) (rest : List UInt8) :
    entry (item n) pushed first (encodeMember m ++ rest)
      = if (!first || m.1.utf8ByteSize ≤ windowSize) && leadsFit m.2 then .ok (m, rest)
        else .error (.mismatch .string .firstKey) := by
  simp only [entry, encodeMember, List.append_assoc]
  cases first with
  | false =>
    simp only [Bool.false_eq_true, if_false, laterKey_encodeString hk, bind, Except.bind, hv, readBack]
    cases leadsFit m.2 <;> rfl
  | true =>
    simp only [if_true, firstKey_encodeString hk, bind, Except.bind]
    by_cases hw : m.1.utf8ByteSize ≤ windowSize
    · simp only [hw, if_true, hv, readBack]
      cases leadsFit m.2 <;> rfl
    · simp only [hw, if_false]
      rfl

theorem exactly_encodeMembers {n : Nat} {ms : Members} (hk : ∀ m ∈ ms, m.1.utf8ByteSize < 2 ^ 64)
    (hv : ∀ m ∈ ms, ∀ rest, item n (encode m.2 ++ rest) = readBack m.2 rest) (rest : List UInt8) :
    exactly (entry (item n) false) true ms.length (ms.flatMap encodeMember ++ rest)
      = if leadsFit (.object ms) then .ok (ms, rest) else .error (.mismatch .string .firstKey) := by
  cases ms with
  | nil => rfl
  | cons m ms =>
    have hfirst := entry_encodeMember (hk m List.mem_cons_self) (hv m List.mem_cons_self) false true
      (ms.flatMap encodeMember ++ rest)
    have hlater : exactly (entry (item n) false) false ms.length (ms.flatMap encodeMember ++ rest)
        = if ms.all fun m => leadsFit m.2 then .ok (ms, rest) else .error (.mismatch .string .firstKey) :=
      exactly_flatMap rest fun a ha =>
        entry_encodeMember (hk a (List.mem_cons_of_mem _ ha)) (hv a (List.mem_cons_of_mem _ ha)) false false
    rw [List.length_cons, exactly, List.flatMap_cons, List.append_assoc, hfirst]
    simp only [leadsFit, leadsFit_members, Bool.not_true, Bool.false_or]
    cases decide (m.1.utf8ByteSize ≤ windowSize) && leadsFit m.2 with
    | false => rfl
    | true =>
      simp only [if_true, bind, Except.bind, hlater, Bool.true_and]
      cases ms.all fun m => leadsFit m.2 <;> rfl

theorem integer_encode {n : Int} (h : -0x8000000000000000 ≤ n ∧ n < 0x10000000000000000) (rest : List UInt8) :
    integer n rest = .ok (.number (.integer n h), rest) := by
  simp only [integer, Number.ofInt?_eq_some h]

theorem item_encodeNumber (levels : Nat) (n : Number) (rest : List UInt8) :
    item levels (encodeNumber n ++ rest) = .ok (.number n, rest) := by
  cases n with
  | double x =>
    rw [item.eq_def]
    simp only [encodeNumber, Head.read_encodeDouble, bind, Except.bind, float]
  | integer n h =>
    simp only [encodeNumber]
    split
    · have hread := Head.read_head 0 n.toNat (by decide) (by omega : n.toNat < 2 ^ 64) rest fun _ => rfl
      have hn : (n.toNat : Int) = n := by omega
      rw [item.eq_def]
      simp only [hread, bind, Except.bind, hn, integer_encode h]
    · have hread := Head.read_head 1 (-1 - n).toNat (by decide) (by omega : (-1 - n).toNat < 2 ^ 64) rest fun _ => rfl
      have hn : -1 - ((-1 - n).toNat : Int) = n := by omega
      rw [item.eq_def]
      simp only [hread, bind, Except.bind, hn, integer_encode h]

/-- What is read of a document that was written, whatever follows it. -/
def IsReadBack (v : Value) (n : Nat) : Prop := ∀ rest, item n (encode v ++ rest) = readBack v rest

theorem readBack_string {s : String} (hs : s.utf8ByteSize < 2 ^ 64) (n : Nat) : IsReadBack (.string s) n := by
  intro rest
  rw [item.eq_def]
  simp only [encode, read_encodeString hs, bind, Except.bind, textItem_encode]
  rfl

theorem readBack_array {items : List Value} {n : Nat} (hlen : items.length < 2 ^ 64)
    (h : ∀ v ∈ items, IsReadBack v n) : IsReadBack (.array items) (n + 1) := by
  intro rest
  have hread := Head.read_head 4 items.length (by decide) hlen (items.flatMap encode ++ rest) fun _ => rfl
  have hitems : exactly (fun _ => item n) false items.length (items.flatMap encode ++ rest)
      = if items.all leadsFit then .ok (items, rest) else .error (.mismatch .string .firstKey) :=
    exactly_flatMap rest h
  rw [item.eq_def]
  simp only [encode, List.append_assoc, encode_items, hread, bind, Except.bind, sequence, exactly_ignoring_first,
    hitems]
  simp only [readBack, leadsFit, leadsFit_items]
  cases items.all leadsFit <;> rfl

theorem readBack_object {members : Members} {n : Nat} (hsorted : members.Sorted) (hlen : members.length < 2 ^ 64)
    (hkeys : ∀ m ∈ members, m.1.utf8ByteSize < 2 ^ 64) (h : ∀ m ∈ members, IsReadBack m.2 n) :
    IsReadBack (.object members) (n + 1) := by
  intro rest
  have hread := Head.read_head 5 members.length (by decide) hlen (members.flatMap encodeMember ++ rest) fun _ => rfl
  have hitems := exactly_encodeMembers hkeys h rest
  have hback : Members.ofEntries members = members := Json.Members.insertAll_of_sorted [] members hsorted
  rw [item.eq_def]
  simp only [encode, List.append_assoc, encode_members, hread, bind, Except.bind, sequence, Option.isNone_some,
    hitems]
  simp only [readBack]
  cases leadsFit (.object members) with
  | false => rfl
  | true => simp only [if_true, Except.map, hback]

/-- A written document is read back whenever the first keys of its objects fit; otherwise reading fails. -/
theorem item_encode {v : Value} (hs : v.Sorted) (hw : v.weight < 2 ^ 64) {n : Nat} (hd : v.depth ≤ n) :
    IsReadBack v n := by
  induction v generalizing n with
  | null =>
    intro rest
    rw [item.eq_def]
    rfl
  | bool b =>
    intro rest
    rw [item.eq_def]
    cases b <;> rfl
  | number x => exact item_encodeNumber n x
  | string s =>
    simp only [Value.weight] at hw
    exact readBack_string (by omega) n
  | array items ih =>
    simp only [Value.weight] at hw
    have hlen := Value.length_le_weightItems items
    cases n with
    | zero => simp [Value.depth] at hd
    | succ n =>
      refine readBack_array (by omega) fun v hv => ?_
      have hweight := Value.weight_le_weightItems hv
      exact ih v hv (Value.sorted_array.1 hs v hv) (by omega) (Value.depth_array_le.1 hd v hv)
  | object members ih =>
    simp only [Value.weight] at hw
    have hlen := Value.length_le_weightMembers members
    obtain ⟨hms, hvs⟩ := Value.sorted_object.1 hs
    cases n with
    | zero => simp [Value.depth] at hd
    | succ n =>
      have hweight : ∀ m ∈ members, m.1.utf8ByteSize < 2 ^ 64 ∧ m.2.weight < 2 ^ 64 := fun m hm => by
        have := Value.weight_le_weightMembers hm
        omega
      refine readBack_object hms (by omega) (fun m hm => (hweight m hm).1) fun m hm => ?_
      exact ih m hm (hvs m hm) (hweight m hm).2 (Value.depth_object_le.1 hd m hm)

end ServiceSchema.Cbor
