import ServiceSchema.Proofs.Cbor.RoundTrip

/-! # What is decoded
Whatever the bytes, a decoded document has its members in order, is nested no deeper than the decoder allows,
and weighs no more than the bytes it was taken from. So it can be written, and what is written is read back:
of all spellings of a document the written one is the last. -/
namespace ServiceSchema.Cbor
open ServiceSchema.Json ServiceSchema.Text

/-- What a reader returns is as it should be, and costs no more than the bytes that were taken for it. -/
def Accounts {α : Type} (good : α → Prop) (cost : α → Nat) (read : List UInt8 → Except Fault (α × List UInt8)) :
    Prop :=
  ∀ bytes a rest, read bytes = .ok (a, rest) → good a ∧ cost a + rest.length ≤ bytes.length

/-! ## Heads -/

theorem rest_of_argument {width n : Nat} {bytes rest : List UInt8} (h : Head.argument width bytes = .ok (n, rest)) :
    rest.length ≤ bytes.length := by
  simp only [Head.argument] at h
  split at h
  · cases h
  · cases h
    rw [List.length_drop]
    omega

/-- A head is at least one byte. -/
theorem rest_of_read {bytes rest : List UInt8} {h : Head} (hread : Head.read bytes = .ok (h, rest)) :
    rest.length < bytes.length := by
  cases bytes with
  | nil => cases hread
  | cons b bytes =>
    have hmap {r : Except Fault Head} {tail : List UInt8} (htail : tail.length ≤ bytes.length)
        (hr : r.map (·, tail) = .ok (h, rest)) : rest.length < (b :: bytes).length := by
      obtain ⟨_, -, heq⟩ := map_eq_ok.1 hr
      cases heq
      exact Nat.lt_succ_of_le htail
    simp only [Head.read] at hread
    split at hread
    · split at hread
      · cases hread
        exact Nat.lt_succ_self _
      · exact hmap (Nat.le_refl _) hread
    · split at hread
      · split at hread
        · cases hread
        · rename_i n tail hargument
          have htail := rest_of_argument hargument
          split at hread
          · cases hread
            exact Nat.lt_succ_of_le htail
          · exact hmap htail hread
      · split at hread
        · split at hread
          · cases hread
            exact Nat.lt_succ_self _
          · exact hmap (Nat.le_refl _) hread
        · cases hread

/-! ## Texts and keys -/

theorem bytes_of_text {left length : Nat} {bytes rest : List UInt8} {cs : List Char}
    (h : text left length bytes = .ok (cs, rest)) : byteLength cs + rest.length ≤ bytes.length := by
  simp only [text] at h
  split at h
  · rename_i hlength
    split at h
    · rename_i cs hdecode
      cases h
      have hbytes := Utf8.byteLength_decode? hdecode
      rw [List.length_take, Nat.min_eq_left hlength] at hbytes
      rw [List.length_drop]
      omega
    · cases h
  · split at h <;> cases h

theorem bytes_of_segments {fuel nested : Nat} {bytes rest : List UInt8} {cs : List Char}
    (h : segments fuel nested bytes = .ok (cs, rest)) : byteLength cs + rest.length ≤ bytes.length := by
  induction fuel generalizing nested bytes rest cs with
  | zero => cases h
  | succ fuel ih =>
    obtain ⟨⟨head, tail⟩, hread, h⟩ := bind_eq_ok.1 h
    have htail := rest_of_read hread
    split at h
    · rename_i heq
      cases heq
      split at h
      · cases h
        simp only [byteLength]
        omega
      · have := ih h
        omega
    · rename_i heq
      cases heq
      have := ih h
      omega
    · rename_i heq
      cases heq
      obtain ⟨⟨as, rest₁⟩, htext, h⟩ := bind_eq_ok.1 h
      obtain ⟨⟨bs, rest₂⟩, hrest, h⟩ := bind_eq_ok.1 h
      cases h
      have hfirst := bytes_of_text htext
      have hmore := ih hrest
      rw [byteLength_append]
      omega
    · cases h

theorem utf8ByteSize_ofList (cs : List Char) : (String.ofList cs).utf8ByteSize = byteLength cs := by
  rw [← Utf8.byteLength_toList, String.toList_ofList]

theorem accounts_textItem (length : Option Nat) :
    Accounts (fun _ => True) String.utf8ByteSize (textItem length) := by
  intro bytes s rest h
  refine ⟨trivial, ?_⟩
  cases length with
  | none =>
    obtain ⟨⟨cs, rest⟩, hsegments, heq⟩ := map_eq_ok.1 h
    cases heq
    rw [utf8ByteSize_ofList]
    exact bytes_of_segments hsegments
  | some n =>
    obtain ⟨⟨cs, rest⟩, htext, heq⟩ := map_eq_ok.1 h
    cases heq
    rw [utf8ByteSize_ofList]
    exact bytes_of_text htext

def keyCost (s : String) : Nat := s.utf8ByteSize + 1

theorem accounts_firstKey (fuel : Nat) (pushed : Bool) :
    Accounts (fun _ => True) keyCost (firstKey fuel pushed) := by
  induction fuel generalizing pushed with
  | zero => exact fun _ _ _ h => nomatch h
  | succ fuel ih =>
    intro bytes s rest h
    obtain ⟨⟨head, tail⟩, hread, h⟩ := bind_eq_ok.1 h
    have htail := rest_of_read hread
    split at h
    · rename_i heq
      cases heq
      have := (ih false _ _ _ h).2
      exact ⟨trivial, by omega⟩
    · rename_i heq
      cases heq
      split at h
      · obtain ⟨⟨cs, rest⟩, htext, heq⟩ := map_eq_ok.1 h
        cases heq
        have := bytes_of_text htext
        refine ⟨trivial, ?_⟩
        simp only [keyCost, utf8ByteSize_ofList]
        omega
      · cases h
    · cases h

theorem accounts_laterKey (fuel : Nat) : Accounts (fun _ => True) keyCost (laterKey fuel) := by
  induction fuel with
  | zero => exact fun _ _ _ h => nomatch h
  | succ fuel ih =>
    intro bytes s rest h
    obtain ⟨⟨head, tail⟩, hread, h⟩ := bind_eq_ok.1 h
    have htail := rest_of_read hread
    split at h
    · rename_i heq
      cases heq
      have := (ih _ _ _ h).2
      exact ⟨trivial, by omega⟩
    · rename_i heq
      cases heq
      have := (accounts_textItem _ _ _ _ h).2
      refine ⟨trivial, ?_⟩
      rw [keyCost]
      omega
    · cases h

/-! ## Lists -/

section Lists

variable {α : Type} {good : α → Prop} {cost : α → Nat} {read : Bool → List UInt8 → Except Fault (α × List UInt8)}

def totalCost (cost : α → Nat) (as : List α) : Nat := (as.map cost).sum

theorem accounts_cons {bytes rest rest' : List UInt8} {a : α} {as : List α}
    (ha : good a ∧ cost a + rest.length ≤ bytes.length)
    (has : (∀ b ∈ as, good b) ∧ totalCost cost as + rest'.length ≤ rest.length) :
    (∀ b ∈ a :: as, good b) ∧ totalCost cost (a :: as) + rest'.length ≤ bytes.length := by
  refine ⟨List.forall_mem_cons.2 ⟨ha.1, has.1⟩, ?_⟩
  rw [totalCost, List.map_cons, List.sum_cons, ← totalCost]
  omega

theorem accounts_exactly (hread : ∀ first, Accounts good cost (read first)) (first : Bool) (n : Nat) :
    Accounts (fun as => ∀ a ∈ as, good a) (totalCost cost) (exactly read first n) := by
  induction n generalizing first with
  | zero =>
    intro bytes as rest h
    cases h
    exact ⟨nofun, by simp [totalCost]⟩
  | succ n ih =>
    intro bytes as rest h
    obtain ⟨⟨b, rest₁⟩, hb, h⟩ := bind_eq_ok.1 h
    obtain ⟨⟨bs, rest₂⟩, hbs, h⟩ := bind_eq_ok.1 h
    cases h
    exact accounts_cons (hread first _ _ _ hb) (ih false _ _ _ hbs)

theorem accounts_untilBreak (hread : ∀ first, Accounts good cost (read first)) (fuel : Nat) (first : Bool) :
    Accounts (fun as => ∀ a ∈ as, good a) (totalCost cost) (untilBreak read fuel first) := by
  induction fuel generalizing first with
  | zero => exact fun _ _ _ h => nomatch h
  | succ fuel ih =>
    intro bytes as rest h
    obtain ⟨⟨head, tail⟩, hhead, h⟩ := bind_eq_ok.1 h
    have htail := rest_of_read hhead
    split at h
    · rename_i heq
      cases heq
      cases h
      refine ⟨nofun, ?_⟩
      simp only [totalCost, List.map_nil, List.sum_nil]
      omega
    · obtain ⟨⟨b, rest₁⟩, hb, h⟩ := bind_eq_ok.1 h
      obtain ⟨⟨bs, rest₂⟩, hbs, h⟩ := bind_eq_ok.1 h
      cases h
      exact accounts_cons (hread first _ _ _ hb) (ih false _ _ _ hbs)

theorem accounts_sequence (hread : ∀ first, Accounts good cost (read first)) (length : Option Nat) :
    Accounts (fun as => ∀ a ∈ as, good a) (totalCost cost) (sequence read length) := by
  cases length with
  | none => exact fun bytes => accounts_untilBreak hread (bytes.length + 1) true bytes
  | some n => exact accounts_exactly hread true n

end Lists

/-! ## Items -/

/-- A value with its members in order, nested no deeper than `levels`. -/
def Within (levels : Nat) (v : Value) : Prop := v.Sorted ∧ v.depth ≤ levels

theorem rest_of_skipBytes {length : Nat} {bytes rest : List UInt8} (h : skipBytes length bytes = .ok rest) :
    rest.length ≤ bytes.length := by
  simp only [skipBytes] at h
  split at h
  · cases h
    rw [List.length_drop]
    omega
  · cases h

/-- A value that is neither a text nor a container costs one byte. -/
theorem account_of_scalar {levels : Nat} {v : Value} {bytes rest : List UInt8}
    (hv : v.Sorted ∧ v.depth = 0 ∧ v.weight = 1) (h : rest.length < bytes.length) :
    Within levels v ∧ v.weight + rest.length ≤ bytes.length := by
  obtain ⟨hsorted, hdepth, hweight⟩ := hv
  exact ⟨⟨hsorted, by omega⟩, by omega⟩

theorem number_of_integer {n : Int} {rest rest' : List UInt8} {v : Value} (h : integer n rest = .ok (v, rest')) :
    (∃ m, v = .number m) ∧ rest' = rest := by
  unfold integer at h
  split at h
  · cases h
    exact ⟨⟨_, rfl⟩, rfl⟩
  · cases h

theorem number_of_bigInteger {negative : Bool} {length : Nat} {bytes rest : List UInt8} {v : Value}
    (h : bigInteger negative length bytes = .ok (v, rest)) : (∃ m, v = .number m) ∧ rest.length ≤ bytes.length := by
  obtain ⟨tail, hskip, h⟩ := bind_eq_ok.1 h
  have htail := rest_of_skipBytes hskip
  dsimp only at h
  split at h
  · split at h
    · obtain ⟨hv, rfl⟩ := number_of_integer h
      exact ⟨hv, htail⟩
    · cases h
  · obtain ⟨hv, rfl⟩ := number_of_integer h
    exact ⟨hv, htail⟩

theorem number_of_tagged {tag : Nat} {bytes rest : List UInt8} {v : Value} (h : tagged tag bytes = .ok (v, rest)) :
    (∃ m, v = .number m) ∧ rest.length ≤ bytes.length := by
  obtain ⟨⟨head, tail⟩, hread, h⟩ := bind_eq_ok.1 h
  have htail := rest_of_read hread
  split at h
  · rename_i heq
    cases heq
    split at h
    · obtain ⟨hv, hrest⟩ := number_of_bigInteger h
      exact ⟨hv, by omega⟩
    · cases h
  · cases h

theorem scalar_of_simple {n : Nat} {rest rest' : List UInt8} {v : Value} (h : simple n rest = .ok (v, rest')) :
    (v.Sorted ∧ v.depth = 0 ∧ v.weight = 1) ∧ rest' = rest := by
  unfold simple at h
  split at h <;> cases h <;> exact ⟨⟨trivial, rfl, rfl⟩, rfl⟩

theorem scalar_of_float {x : Double.Wide} {rest rest' : List UInt8} {v : Value} (h : float x rest = .ok (v, rest')) :
    (v.Sorted ∧ v.depth = 0 ∧ v.weight = 1) ∧ rest' = rest := by
  unfold float at h
  split at h <;> cases h <;> exact ⟨⟨trivial, rfl, rfl⟩, rfl⟩

theorem ne_ok_of_bytesItem {length : Option Nat} {bytes : List UInt8} {r : Value × List UInt8} :
    bytesItem length bytes ≠ .ok r := by
  intro h
  cases length with
  | none =>
    obtain ⟨_, -, h⟩ := bind_eq_ok.1 h
    cases h
  | some n =>
    obtain ⟨_, -, h⟩ := bind_eq_ok.1 h
    cases h

def memberCost (m : String × Value) : Nat := keyCost m.1 + m.2.weight

theorem accounts_entry {levels : Nat} {value : List UInt8 → Except Fault (Value × List UInt8)}
    (hvalue : Accounts (Within levels) Value.weight value) (pushed first : Bool) :
    Accounts (fun m => Within levels m.2) memberCost (entry value pushed first) := by
  have hmember {key : String} {bytes tail rest : List UInt8} {v : Value}
      (hkey : keyCost key + tail.length ≤ bytes.length) (hv : value tail = .ok (v, rest)) :
      Within levels v ∧ memberCost (key, v) + rest.length ≤ bytes.length := by
    obtain ⟨hwithin, hweight⟩ := hvalue _ _ _ hv
    refine ⟨hwithin, ?_⟩
    simp only [memberCost]
    omega
  intro bytes m rest h
  cases first with
  | false =>
    obtain ⟨⟨key, tail⟩, hkey, h⟩ := bind_eq_ok.1 h
    obtain ⟨⟨v, rest⟩, hv, h⟩ := bind_eq_ok.1 h
    cases h
    exact hmember (accounts_laterKey _ _ _ _ hkey).2 hv
  | true =>
    obtain ⟨⟨key, tail⟩, hkey, h⟩ := bind_eq_ok.1 h
    obtain ⟨⟨v, rest⟩, hv, h⟩ := bind_eq_ok.1 h
    cases h
    exact hmember (accounts_firstKey _ _ _ _ _ hkey).2 hv

theorem totalCost_weight (vs : List Value) : totalCost Value.weight vs = Value.weight.weightItems vs := by
  induction vs with
  | nil => rfl
  | cons v vs ih =>
    rw [totalCost, List.map_cons, List.sum_cons, ← totalCost, ih, Value.weight.weightItems]

theorem totalCost_memberCost (ms : Members) : totalCost memberCost ms = Value.weight.weightMembers ms := by
  induction ms with
  | nil => rfl
  | cons m ms ih =>
    rw [totalCost, List.map_cons, List.sum_cons, ← totalCost, ih, Value.weight.weightMembers, memberCost, keyCost]

theorem within_array {n : Nat} {vs : List Value} (h : ∀ v ∈ vs, Within n v) : Within (n + 1) (.array vs) :=
  ⟨Value.sorted_array.2 fun v hv => (h v hv).1, Value.depth_array_le.2 fun v hv => (h v hv).2⟩

theorem within_object {n : Nat} {entries : Members} (h : ∀ m ∈ entries, Within n m.2) :
    Within (n + 1) (.object (Members.ofEntries entries)) := by
  have hmem : ∀ m ∈ Json.Members.insertAll [] entries, Within n m.2 := fun m hm =>
    h m ((Json.Members.mem_of_mem_insertAll hm).resolve_left List.not_mem_nil)
  exact ⟨Value.sorted_object.2 ⟨Json.Members.insertAll_sorted entries List.Pairwise.nil, fun m hm => (hmem m hm).1⟩,
    Value.depth_object_le.2 fun m hm => (hmem m hm).2⟩

/-- One level more of containers. -/
theorem accounts_level {levels : Nat} (ih : ∀ n, levels = n + 1 → Accounts (Within n) Value.weight (item n)) :
    Accounts (Within levels) Value.weight (item levels) := by
  intro bytes v rest h
  rw [item.eq_def] at h
  obtain ⟨⟨head, tail⟩, hread, h⟩ := bind_eq_ok.1 h
  have htail := rest_of_read hread
  have hnumber (hv : ∃ m, v = .number m) (hrest : rest.length ≤ tail.length) :
      Within levels v ∧ v.weight + rest.length ≤ bytes.length := by
    obtain ⟨m, rfl⟩ := hv
    exact account_of_scalar ⟨trivial, rfl, rfl⟩ (by omega)
  cases head with
  | positive n | negative n =>
    obtain ⟨hv, rfl⟩ := number_of_integer h
    exact hnumber hv (Nat.le_refl _)
  | bytes length => exact absurd h ne_ok_of_bytesItem
  | text length =>
    obtain ⟨⟨s, rest⟩, hs, h⟩ := map_eq_ok.1 h
    cases h
    have hcost := (accounts_textItem _ _ _ _ hs).2
    refine ⟨⟨trivial, Nat.zero_le _⟩, ?_⟩
    simp only [Value.weight]
    omega
  | array length =>
    cases levels with
    | zero => cases h
    | succ n =>
      obtain ⟨⟨vs, rest⟩, hvs, h⟩ := map_eq_ok.1 h
      cases h
      obtain ⟨hwithin, hcost⟩ := accounts_sequence (fun _ => ih n rfl) length _ _ _ hvs
      refine ⟨within_array hwithin, ?_⟩
      rw [totalCost_weight] at hcost
      simp only [Value.weight]
      omega
  | map length =>
    cases levels with
    | zero => cases h
    | succ n =>
      obtain ⟨⟨entries, rest⟩, hentries, h⟩ := map_eq_ok.1 h
      cases h
      obtain ⟨hwithin, hcost⟩ := accounts_sequence (accounts_entry (ih n rfl) length.isNone) length _ _ _ hentries
      have hinsert := Value.weightMembers_insertAll [] entries
      refine ⟨within_object hwithin, ?_⟩
      rw [totalCost_memberCost] at hcost
      simp only [Value.weight, Value.weight.weightMembers] at hinsert ⊢
      change Value.weight.weightMembers (Json.Members.insertAll [] entries) + 1 + rest.length ≤ bytes.length
      omega
  | tag n =>
    obtain ⟨hv, hrest⟩ := number_of_tagged h
    exact hnumber hv hrest
  | simple n =>
    obtain ⟨hv, rfl⟩ := scalar_of_simple h
    exact account_of_scalar hv htail
  | float x =>
    obtain ⟨hv, rfl⟩ := scalar_of_float h
    exact account_of_scalar hv htail
  | «break» => cases h

/-- An item that is read has its members in order, is nested within the levels, and weighs no more than its
bytes. -/
theorem accounts_item (levels : Nat) : Accounts (Within levels) Value.weight (item levels) := by
  induction levels with
  | zero => exact accounts_level nofun
  | succ n ih => exact accounts_level fun m hm => by cases hm; exact ih

/-- What every decoded document is like. -/
theorem within_of_decode {bytes : List UInt8} {v : Value} (h : decode bytes = .ok v) :
    v.Sorted ∧ v.depth ≤ maxLevels ∧ v.weight ≤ bytes.length := by
  obtain ⟨⟨w, rest⟩, hitem, rfl⟩ := map_eq_ok.1 (mapError_eq_ok.1 h)
  obtain ⟨⟨hsorted, hdepth⟩, hweight⟩ := accounts_item maxLevels _ _ _ hitem
  exact ⟨hsorted, hdepth, Nat.le_trans (Nat.le_add_right _ _) hweight⟩

/-! ## Written again -/

def recode (bytes : List UInt8) : Except DecodeError (List UInt8) := (decode bytes).map encode

/-- A document that was decoded is read back from its written form, if its keys fit in the decoder's window;
so writing it again changes nothing. The number of bytes in memory always is a machine word. -/
theorem recode_stable {bytes : List UInt8} {v : Value} (h : decode bytes = .ok v) (hsize : bytes.length < 2 ^ 64)
    (hkeys : KeysWithin 4096 v) :
    decode (encode v) = .ok v ∧ recode bytes = .ok (encode v) ∧ recode (encode v) = .ok (encode v) := by
  obtain ⟨hsorted, hdepth, hweight⟩ := within_of_decode h
  have hback : decode (encode v) = .ok v := by
    have := decode_encode hsorted (by omega) hdepth []
    rwa [List.append_nil, if_pos (leadsFit_of_keysWithin hkeys)] at this
  refine ⟨hback, ?_, ?_⟩
  · rw [recode, h, map_ok]
  · rw [recode, hback, map_ok]

/-- A document in a spelling that has everything but the written form: an indefinite map with its keys out of
order and one of them twice, a long head, a text in pieces, a number that is none, and a byte too many. -/
def foreignSpelling : List UInt8 :=
  [0xBF, 0x61, 0x62, 0xF9, 0x7E, 0x00, 0x61, 0x61, 0x18, 0x01, 0x61, 0x62, 0x7F, 0x61, 0x78, 0x61, 0x79, 0xFF,
    0xFF, 0x00]

theorem recode_stable_foreign : ∃ v, decode foreignSpelling = .ok v ∧ KeysWithin 4096 v ∧
    decode (encode v) = .ok v ∧ recode foreignSpelling = .ok (encode v) ∧ recode (encode v) = .ok (encode v) := by
  have hdecode : decode foreignSpelling
      = .ok (.object [("a", .number (.integer 1 (by decide))), ("b", .string "xy")]) :=
    eq_ok_of_toOption (by decide +kernel)
  have hkeys : KeysWithin 4096 (.object [("a", .number (.integer 1 (by decide))), ("b", .string "xy")]) := by
    intro members hmembers m hm
    simp only [Value.subvalues, Value.subvalues.subvaluesMembers, List.append_nil, List.cons_append,
      List.nil_append, List.mem_cons, Value.object.injEq, List.not_mem_nil, reduceCtorEq, or_false] at hmembers
    cases hmembers
    rcases List.mem_cons.1 hm with rfl | hm
    · decide
    · cases List.mem_singleton.1 hm
      decide
  exact ⟨_, hdecode, hkeys, recode_stable hdecode (by decide) hkeys⟩

end ServiceSchema.Cbor
