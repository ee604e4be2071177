import ServiceSchema.Compiler
import ServiceSchema.Proofs.Cbor.Item
import ServiceSchema.Proofs.Json.Reader

/-! # Documents sent as CBOR
A schema that was read travels as CBOR and arrives as it was sent. The reader's limit on nesting is below the
decoder's, and no text is too long for a head. -/
namespace ServiceSchema.Cbor
open ServiceSchema.Json

/-- No key of an object, at any level, is longer than `n` bytes. -/
def KeysWithin (n : Nat) (v : Value) : Prop :=
  ∀ members, .object members ∈ v.subvalues → ∀ m ∈ members, m.1.utf8ByteSize ≤ n

theorem keysWithin_of_all {n : Nat} {v : Value} (h : v.subvalues.all fun
      | .object members => members.all fun m => m.1.utf8ByteSize ≤ n
      | _ => true) : KeysWithin n v := by
  intro members hmembers m hm
  have hobject := List.all_eq_true.1 h _ hmembers
  exact of_decide_eq_true (List.all_eq_true.1 hobject m hm)

theorem leadsFit_of_keysWithin {v : Value} (h : KeysWithin windowSize v) : leadsFit v := by
  induction v with
  | null | bool | number | string => rfl
  | array items ih =>
    rw [leadsFit, leadsFit_items, List.all_eq_true]
    intro v hv
    exact ih v hv fun ms hms => h ms (Value.mem_subvalues_array.2 (.inr ⟨v, hv, hms⟩))
  | object members ih =>
    have hmembers : ∀ m ∈ members, leadsFit m.2 := fun m hm =>
      ih m hm fun ms hms => h ms (Value.mem_subvalues_object.2 (.inr ⟨m, hm, hms⟩))
    cases members with
    | nil => rfl
    | cons m rest =>
      have hkey := h (m :: rest) (Value.mem_subvalues_object.2 (.inl rfl)) m List.mem_cons_self
      rw [leadsFit, leadsFit_members]
      simp only [Bool.and_eq_true, decide_eq_true_eq, List.all_eq_true]
      exact ⟨⟨hkey, hmembers m List.mem_cons_self⟩, fun n hn => hmembers n (List.mem_cons_of_mem _ hn)⟩

theorem decode_encode {v : Value} (hs : v.Sorted) (hw : v.weight < 2 ^ 64) (hd : v.depth ≤ maxLevels)
    (rest : List UInt8) :
    decode (encode v ++ rest) = if leadsFit v then .ok v
      else .error ((Fault.mismatch .string .firstKey).located (encode v ++ rest).length) := by
  rw [decode, item_encode hs hw hd, readBack]
  cases leadsFit v <;> rfl

/-- What the decoder makes of a schema that was read. The size of a text in memory always is a machine word. -/
theorem decode_encode_of_read {origin text : String} {doc : Value} (h : readSchema origin text = .ok doc)
    (hsize : text.utf8ByteSize < 2 ^ 64) (rest : List UInt8) :
    decode (encode doc ++ rest) = if leadsFit doc then .ok doc
      else .error ((Fault.mismatch .string .firstKey).located (encode doc ++ rest).length) := by
  have hread : readChars text.toList = .ok doc := mapError_eq_ok.1 h
  obtain ⟨hsorted, hdepth⟩ := fits_of_readChars hread
  have hweight : doc.weight < 2 ^ 64 := by
    have := weight_of_readChars hread
    rw [Utf8.byteLength_toList] at this
    omega
  exact decode_encode hsorted hweight (Nat.le_trans hdepth (by decide : Reader.maxDepth ≤ maxLevels)) rest

/-- A schema comes back from its CBOR form, whatever follows, if its keys fit in the decoder's window. If
they do not, it comes back or the decoder refuses it, but no other value comes back. The size of a text in
memory always is a machine word. -/
theorem decode_encode_of_readSchema {origin text : String} {doc : Value} (h : readSchema origin text = .ok doc)
    (hsize : text.utf8ByteSize < 2 ^ 64) :
    (∀ rest, KeysWithin 4096 doc → decode (encode doc ++ rest) = .ok doc) ∧
      (decode (encode doc) = .ok doc ∨ ∃ e, decode (encode doc) = .error e) := by
  have hback := decode_encode_of_read h hsize
  constructor
  · intro rest hkeys
    rw [hback, if_pos (leadsFit_of_keysWithin hkeys)]
  · have hwhole := hback []
    rw [List.append_nil] at hwhole
    rw [hwhole]
    split
    · exact .inl rfl
    · exact .inr ⟨_, rfl⟩

/-- A document with a negative integer and a double of half precision. -/
def gainSchema : Value := .object [("gain", .array [.number (.integer (-7) (by decide)),
  .number (.double ⟨false, 0x10000000000000, 1021, by decide, by decide, by decide⟩)])]

theorem decode_encode_gain : readSchema "schema" "\x7b\"gain\":[-7,0.5]\x7d" = .ok gainSchema ∧
    decode (encode gainSchema ++ [0xff]) = .ok gainSchema := by
  have hread : readSchema "schema" "\x7b\"gain\":[-7,0.5]\x7d" = .ok gainSchema :=
    eq_ok_of_toOption (by decide +kernel)
  refine ⟨hread, (decode_encode_of_readSchema hread (by decide)).1 [0xff] fun members hmembers m hm => ?_⟩
  simp only [gainSchema, Value.subvalues, Value.subvalues.subvaluesMembers, Value.subvalues.subvaluesItems,
    List.append_nil, List.cons_append, List.nil_append, List.mem_cons, Value.object.injEq, List.not_mem_nil,
    reduceCtorEq, or_false] at hmembers
  cases hmembers
  cases List.mem_singleton.1 hm
  decide

end ServiceSchema.Cbor
