import ServiceSchema.Json.Reader
import ServiceSchema.Proofs.Json.Scan
import ServiceSchema.Proofs.Json.Value

/-! # What is read
Everything one step of the reader can do, and what follows for a whole text: the document has the members of
its objects in order, is nested no deeper than the reader's stack, and weighs no more than the text. -/
namespace ServiceSchema.Json

def Phase.awaitsValue : Phase → Bool
  | .value | .firstItem | .nextItem => true
  | _ => false

def Phase.awaitsKey : Phase → Bool
  | .firstKey | .nextKey => true
  | _ => false

def Phase.mayClose : Phase → Bool
  | .firstItem | .itemEnd | .firstKey | .memberEnd => true
  | _ => false

def Lexeme.scalar? : Lexeme → Option Value
  | .null => some .null
  | .bool b => some (.bool b)
  | .number n => some (.number n)
  | .string s => some (.string s)
  | _ => none

namespace Reader

/-! ## Steps -/

/-- What a step can do. -/
inductive Moves : Reader → Lexeme → Reader → Prop where
  | scalar {p : Phase} {stack : List Frame} {l : Lexeme} {v : Value} (hp : p.awaitsValue)
      (hl : l.scalar? = some v) : Moves ⟨p, stack⟩ l (supply v stack)
  | beginArray {p : Phase} {stack : List Frame} (hp : p.awaitsValue) (hroom : stack.length < maxDepth) :
      Moves ⟨p, stack⟩ .beginArray ⟨.firstItem, .array [] :: stack⟩
  | beginObject {p : Phase} {stack : List Frame} (hp : p.awaitsValue) (hroom : stack.length < maxDepth) :
      Moves ⟨p, stack⟩ .beginObject ⟨.firstKey, .object [] "" :: stack⟩
  | endArray {p : Phase} {items : List Value} {stack : List Frame} {l : Lexeme} (hp : p.mayClose) :
      Moves ⟨p, .array items :: stack⟩ l (supply (.array items.reverse) stack)
  | endObject {p : Phase} {members : Members} {key : String} {stack : List Frame} {l : Lexeme}
      (hp : p.mayClose) : Moves ⟨p, .object members key :: stack⟩ l (supply (.object members) stack)
  | key {p : Phase} {members : Members} {last key : String} {stack : List Frame} (hp : p.awaitsKey) :
      Moves ⟨p, .object members last :: stack⟩ (.string key) ⟨.colon, .object members key :: stack⟩
  | colon {stack : List Frame} : Moves ⟨.colon, stack⟩ .colon ⟨.value, stack⟩
  | nextItem {stack : List Frame} : Moves ⟨.itemEnd, stack⟩ .comma ⟨.nextItem, stack⟩
  | nextKey {stack : List Frame} : Moves ⟨.memberEnd, stack⟩ .comma ⟨.nextKey, stack⟩

theorem moves_of_beginValue {p : Phase} {stack : List Frame} {t : Token} {r : Reader} (hp : p.awaitsValue)
    (h : beginValue t stack = .ok r) : Moves ⟨p, stack⟩ t.lexeme r := by
  unfold beginValue at h
  split at h
  · rename_i hl
    simp only [openArray] at h
    split at h
    · cases h
      exact hl ▸ .beginArray hp ‹_›
    · cases h
  · rename_i hl
    simp only [openObject] at h
    split at h
    · cases h
      exact hl ▸ .beginObject hp ‹_›
    · cases h
  · rename_i hl
    cases h
    exact .scalar hp (by rw [hl]; rfl)
  · rename_i hl
    cases h
    exact .scalar hp (by rw [hl]; rfl)
  · rename_i hl
    cases h
    exact .scalar hp (by rw [hl]; rfl)
  · rename_i hl
    cases h
    exact .scalar hp (by rw [hl]; rfl)
  · cases h
  · cases h
  · cases h

theorem moves_of_close {p : Phase} {stack : List Frame} {l : Lexeme} {r : Reader} (hp : p.mayClose)
    (h : close stack = .ok r) : Moves ⟨p, stack⟩ l r := by
  cases stack with
  | nil => cases h
  | cons f stack =>
    cases f <;> cases h
    · exact .endArray hp
    · exact .endObject hp

theorem moves_of_beginKey {p : Phase} {stack : List Frame} {t : Token} {r : Reader} (hp : p.awaitsKey)
    (h : beginKey t stack = .ok r) : Moves ⟨p, stack⟩ t.lexeme r := by
  unfold beginKey at h
  split at h
  · split at h
    · rename_i hl
      cases h
      exact hl ▸ .key hp
    · cases h
    · cases h
  · cases h

theorem moves_of_step {r r' : Reader} {t : Token} (h : r.step t = .ok r') : Moves r t.lexeme r' := by
  obtain ⟨p, stack⟩ := r
  unfold step at h
  split at h
  · rename_i hp
    exact moves_of_beginValue (by cases hp; rfl) h
  · rename_i hp _
    exact moves_of_close (by cases hp; rfl) h
  · rename_i hp _
    exact moves_of_beginValue (by cases hp; rfl) h
  · cases h
  · rename_i hp _
    exact moves_of_beginValue (by cases hp; rfl) h
  · rename_i hp _
    exact moves_of_close (by cases hp; rfl) h
  · rename_i hp hl
    cases hp
    cases h
    exact hl ▸ .nextItem
  · cases h
  · rename_i hp _
    exact moves_of_close (by cases hp; rfl) h
  · rename_i hp _
    exact moves_of_beginKey (by cases hp; rfl) h
  · cases h
  · rename_i hp _
    exact moves_of_beginKey (by cases hp; rfl) h
  · rename_i hp hl
    cases hp
    cases h
    exact hl ▸ .colon
  · cases h
  · rename_i hp _
    exact moves_of_close (by cases hp; rfl) h
  · rename_i hp hl
    cases hp
    cases h
    exact hl ▸ .nextKey
  · cases h
  · cases h

theorem finish_eq_ok {r : Reader} {v : Value} (h : r.finish = .ok v) : r.phase = .done v := by
  unfold finish at h
  split at h <;> cases h
  assumption

/-- What every step preserves holds of the state a document is read in. -/
theorem run_invariant {motive : Reader → List Token → Prop}
    (hstep : ∀ r r' t ts, motive r (t :: ts) → Moves r t.lexeme r' → motive r' ts)
    {r : Reader} {ts : List Token} {v : Value} (hr : motive r ts) (h : r.run ts = .ok v) :
    ∃ stack, motive ⟨.done v, stack⟩ [] := by
  induction ts generalizing r with
  | nil =>
    obtain ⟨p, stack⟩ := r
    have hp : p = .done v := finish_eq_ok h
    exact ⟨stack, hp ▸ hr⟩
  | cons t ts ih =>
    simp only [run] at h
    cases hs : r.step t with
    | error f =>
      rw [hs] at h
      cases h
    | ok r' =>
      rw [hs] at h
      exact ih (hstep r r' t ts hr (moves_of_step hs)) h

/-! ## Order and depth -/

/-- A value with its members in order that may stand within `level` containers. -/
def Fits (level : Nat) (v : Value) : Prop := v.Sorted ∧ level + v.depth ≤ maxDepth

def StackFits : List Frame → Prop
  | [] => True
  | .array items :: stack => stack.length < maxDepth ∧ (∀ v ∈ items, Fits (stack.length + 1) v) ∧ StackFits stack
  | .object members _ :: stack =>
    stack.length < maxDepth ∧ members.Sorted ∧ (∀ m ∈ members, Fits (stack.length + 1) m.2) ∧ StackFits stack

def InOrder (r : Reader) : Prop := StackFits r.stack ∧ ∀ v, r.phase = .done v → Fits 0 v

theorem fits_array {level : Nat} {items : List Value} (hroom : level < maxDepth)
    (h : ∀ v ∈ items, Fits (level + 1) v) : Fits level (.array items) := by
  obtain ⟨n, hn⟩ := Nat.exists_eq_add_of_lt hroom
  have hdepth : (Value.array items).depth ≤ n + 1 := Value.depth_array_le.2 fun v hv => by
    have := (h v hv).2
    omega
  exact ⟨Value.sorted_array.2 fun v hv => (h v hv).1, by omega⟩

theorem fits_object {level : Nat} {members : Members} (hroom : level < maxDepth) (hsorted : members.Sorted)
    (h : ∀ m ∈ members, Fits (level + 1) m.2) : Fits level (.object members) := by
  obtain ⟨n, hn⟩ := Nat.exists_eq_add_of_lt hroom
  have hdepth : (Value.object members).depth ≤ n + 1 := Value.depth_object_le.2 fun m hm => by
    have := (h m hm).2
    omega
  exact ⟨Value.sorted_object.2 ⟨hsorted, fun m hm => (h m hm).1⟩, by omega⟩

theorem fits_scalar {level : Nat} {l : Lexeme} {v : Value} (hroom : level ≤ maxDepth) (h : l.scalar? = some v) :
    Fits level v := by
  cases l <;> cases h <;> exact ⟨trivial, hroom⟩

theorem length_le_of_stackFits {stack : List Frame} (h : StackFits stack) : stack.length ≤ maxDepth := by
  cases stack with
  | nil => exact Nat.zero_le _
  | cons f stack =>
    cases f with
    | array items => exact h.1
    | object members key => exact h.1

theorem inOrder_supply {v : Value} {stack : List Frame} (hs : StackFits stack) (hv : Fits stack.length v) :
    InOrder (supply v stack) := by
  match stack, hs with
  | [], _ => exact ⟨trivial, fun w hw => by cases hw; exact hv⟩
  | .array items :: stack, ⟨hroom, hitems, hstack⟩ =>
    refine ⟨⟨hroom, fun w hw => ?_, hstack⟩, nofun⟩
    rcases List.mem_cons.1 hw with rfl | hw
    · exact hv
    · exact hitems w hw
  | .object members key :: stack, ⟨hroom, hsorted, hmembers, hstack⟩ =>
    refine ⟨⟨hroom, Members.insert_sorted key v hsorted, fun m hm => ?_, hstack⟩, nofun⟩
    rcases Members.mem_of_mem_insert hm with rfl | hm
    · exact hv
    · exact hmembers m hm

theorem inOrder_step {r r' : Reader} {l : Lexeme} (hr : InOrder r) (h : Moves r l r') : InOrder r' := by
  obtain ⟨hs, -⟩ := hr
  cases h with
  | scalar hp hl => exact inOrder_supply hs (fits_scalar (length_le_of_stackFits hs) hl)
  | beginArray hp hroom => exact ⟨⟨hroom, nofun, hs⟩, nofun⟩
  | beginObject hp hroom => exact ⟨⟨hroom, List.Pairwise.nil, nofun, hs⟩, nofun⟩
  | endArray hp =>
    obtain ⟨hroom, hitems, hstack⟩ := hs
    exact inOrder_supply hstack (fits_array hroom fun v hv => hitems v (List.mem_reverse.1 hv))
  | endObject hp =>
    obtain ⟨hroom, hsorted, hmembers, hstack⟩ := hs
    exact inOrder_supply hstack (fits_object hroom hsorted hmembers)
  | key hp => exact ⟨hs, nofun⟩
  | colon | nextItem | nextKey => exact ⟨hs, nofun⟩

/-! ## Weight -/

def contentWeight : Frame → Nat
  | .array items => Value.weight.weightItems items + 1
  | .object members _ => Value.weight.weightMembers members + 1

def frameWeight : Frame → Nat
  | .array items => contentWeight (.array items)
  | .object members key => key.utf8ByteSize + 1 + contentWeight (.object members key)

def stackWeight (stack : List Frame) : Nat := (stack.map frameWeight).sum

/-- What is read so far. Only the innermost object can be without a key that waits. -/
def weight (r : Reader) : Nat :=
  match r.phase, r.stack with
  | .done v, _ => v.weight
  | .firstKey, f :: stack | .nextKey, f :: stack | .memberEnd, f :: stack => contentWeight f + stackWeight stack
  | _, stack => stackWeight stack

theorem contentWeight_le (f : Frame) : contentWeight f ≤ frameWeight f := by
  cases f with
  | array items => exact Nat.le_refl _
  | object members key =>
    simp only [frameWeight]
    omega

theorem stackWeight_cons (f : Frame) (stack : List Frame) :
    stackWeight (f :: stack) = frameWeight f + stackWeight stack := rfl

theorem weight_of_awaitsValue {p : Phase} (hp : p.awaitsValue) (stack : List Frame) :
    weight ⟨p, stack⟩ = stackWeight stack := by
  cases p with
  | value | firstItem | nextItem => rfl
  | _ => cases hp

theorem weight_of_awaitsKey {p : Phase} (hp : p.awaitsKey) (f : Frame) (stack : List Frame) :
    weight ⟨p, f :: stack⟩ = contentWeight f + stackWeight stack := by
  cases p with
  | firstKey | nextKey => rfl
  | _ => cases hp

theorem le_weight_of_mayClose {p : Phase} (hp : p.mayClose) (f : Frame) (stack : List Frame) :
    contentWeight f + stackWeight stack ≤ weight ⟨p, f :: stack⟩ := by
  have hf := contentWeight_le f
  cases p with
  | firstItem | itemEnd => exact Nat.add_le_add_right hf _
  | firstKey | memberEnd => exact Nat.le_refl _
  | _ => cases hp

theorem weight_supply (v : Value) (stack : List Frame) : (supply v stack).weight ≤ v.weight + stackWeight stack := by
  match stack with
  | [] => exact Nat.le_refl _
  | .array items :: stack =>
    simp only [supply, weight, stackWeight_cons, frameWeight, contentWeight, Value.weight.weightItems]
    omega
  | .object members key :: stack =>
    have hinsert := Value.weightMembers_insert key v members
    simp only [supply, weight, stackWeight_cons, frameWeight, contentWeight]
    omega

theorem weight_scalar {l : Lexeme} {v : Value} (h : l.scalar? = some v) : v.weight = l.weight := by
  cases l <;> cases h <;> rfl

theorem weight_step {r r' : Reader} {l : Lexeme} (h : Moves r l r') : r'.weight ≤ r.weight + l.weight := by
  cases h with
  | @scalar p stack l v hp hl =>
    have hsupply := weight_supply v stack
    rw [weight_of_awaitsValue hp, ← weight_scalar hl]
    omega
  | @beginArray p stack hp hroom =>
    rw [weight_of_awaitsValue hp, Nat.add_comm]
    exact Nat.le_refl _
  | @beginObject p stack hp hroom =>
    rw [weight_of_awaitsValue hp, Nat.add_comm]
    exact Nat.le_refl _
  | @endArray p items stack l hp =>
    have hopen := le_weight_of_mayClose hp (.array items) stack
    have hsupply := weight_supply (.array items.reverse) stack
    simp only [Value.weight, Value.weightItems_reverse] at hsupply
    simp only [contentWeight] at hopen
    omega
  | @endObject p members key stack l hp =>
    have hopen := le_weight_of_mayClose hp (.object members key) stack
    have hsupply := weight_supply (.object members) stack
    simp only [Value.weight] at hsupply
    simp only [contentWeight] at hopen
    omega
  | @key p members last key stack hp =>
    rw [weight_of_awaitsKey hp]
    simp only [weight, stackWeight_cons, frameWeight, contentWeight, Lexeme.weight]
    omega
  | colon | nextItem => exact Nat.le_add_right _ _
  | @nextKey stack => cases stack <;> exact Nat.le_add_right _ _

end Reader

/-! ## Documents -/

/-- A document that is read has its members in order and is nested no deeper than the reader allows. -/
theorem fits_of_readChars {cs : List Char} {v : Value} (h : readChars cs = .ok v) :
    v.Sorted ∧ v.depth ≤ Reader.maxDepth := by
  have hstart : Reader.start.InOrder := ⟨trivial, nofun⟩
  obtain ⟨stack, -, hdone⟩ := Reader.run_invariant (motive := fun r _ => r.InOrder)
    (fun _ _ _ _ hr hm => Reader.inOrder_step hr hm) hstart (mapError_eq_ok.1 h)
  obtain ⟨hsorted, hdepth⟩ := hdone v rfl
  exact ⟨hsorted, by omega⟩

/-- A document weighs no more than the bytes of its text. -/
theorem weight_of_readChars {cs : List Char} {v : Value} (h : readChars cs = .ok v) :
    v.weight ≤ Text.byteLength cs := by
  have hstart : Reader.start.weight + ((Token.scan cs).map fun t => t.lexeme.weight).sum ≤ Text.byteLength cs := by
    have htokens := Token.scan_weight cs
    have hzero : Reader.start.weight = 0 := rfl
    omega
  obtain ⟨stack, hdone⟩ := Reader.run_invariant
    (motive := fun r ts => r.weight + (ts.map fun t => t.lexeme.weight).sum ≤ Text.byteLength cs)
    (fun r r' t ts hr hm => by
      have hstep := Reader.weight_step hm
      simp only [List.map_cons, List.sum_cons] at hr
      omega)
    hstart (mapError_eq_ok.1 h)
  exact hdone

end ServiceSchema.Json
