import Mathlib.Logic.Basic
import ServiceSchema.Compiler
import ServiceSchema.Proofs.Json.Reader
import ServiceSchema.Proofs.Json.Spelling

/-! # Printed documents read back
The reader takes the lexemes of a value to the value, with its members in order, as long as its stack has
room. So a document without doubles is read back from either layout, unless it is nested too deep. -/
namespace ServiceSchema.Json
namespace Reader

/-! ## Reading lexemes -/

def reads (r : Reader) : List Lexeme → Option Value
  | [] => r.finish.toOption
  | l :: ls => (r.step ⟨l, []⟩).toOption.bind fun r => r.reads ls

theorem toOption_beginValue (l : Lexeme) (cs ds : List Char) (stack : List Frame) :
    (beginValue ⟨l, cs⟩ stack).toOption = (beginValue ⟨l, ds⟩ stack).toOption := by
  cases l with
  | beginArray =>
    simp only [beginValue, openArray]
    split <;> rfl
  | beginObject =>
    simp only [beginValue, openObject]
    split <;> rfl
  | _ => rfl

theorem toOption_beginKey (l : Lexeme) (cs ds : List Char) (stack : List Frame) :
    (beginKey ⟨l, cs⟩ stack).toOption = (beginKey ⟨l, ds⟩ stack).toOption := by
  cases stack with
  | nil => rfl
  | cons f stack => cases f <;> cases l <;> rfl

theorem step_of_awaitsValue {p : Phase} (hp : p.awaitsValue) {t : Token} (ht : t.lexeme ≠ .endArray)
    (stack : List Frame) : step ⟨p, stack⟩ t = beginValue t stack := by
  obtain ⟨l, cs⟩ := t
  cases p with
  | value => rfl
  | firstItem | nextItem => cases l <;> first | rfl | exact absurd rfl ht
  | _ => cases hp

theorem step_of_awaitsKey {p : Phase} (hp : p.awaitsKey) {t : Token} (ht : t.lexeme ≠ .endObject)
    (stack : List Frame) : step ⟨p, stack⟩ t = beginKey t stack := by
  obtain ⟨l, cs⟩ := t
  cases p with
  | firstKey | nextKey => cases l <;> first | rfl | exact absurd rfl ht
  | _ => cases hp

/-- Where a token stands in the text matters to faults only. -/
theorem toOption_step (r : Reader) (l : Lexeme) (cs ds : List Char) :
    (r.step ⟨l, cs⟩).toOption = (r.step ⟨l, ds⟩).toOption := by
  obtain ⟨p, stack⟩ := r
  by_cases hv : p.awaitsValue ∧ l ≠ .endArray
  · rw [step_of_awaitsValue hv.1 hv.2, step_of_awaitsValue hv.1 hv.2]
    exact toOption_beginValue l cs ds stack
  by_cases hk : p.awaitsKey ∧ l ≠ .endObject
  · rw [step_of_awaitsKey hk.1 hk.2, step_of_awaitsKey hk.1 hk.2]
    exact toOption_beginKey l cs ds stack
  cases p <;> cases l <;> first | rfl | exact absurd ⟨rfl, nofun⟩ hv | exact absurd ⟨rfl, nofun⟩ hk

theorem toOption_run (r : Reader) (ts : List Token) : (r.run ts).toOption = r.reads (ts.map Token.lexeme) := by
  induction ts generalizing r with
  | nil => rfl
  | cons t ts ih =>
    rw [run, List.map_cons, reads, toOption_step r t.lexeme [] t.start]
    cases hs : r.step t with
    | ok r' => exact ih r'
    | error f => rfl

/-- No state goes on after a broken lexeme. -/
theorem reads_broken (r : Reader) {l : Lexeme} (hl : l.isBroken) (ls : List Lexeme) : r.reads (l :: ls) = none := by
  obtain ⟨p, stack⟩ := r
  have hstep : (step ⟨p, stack⟩ ⟨l, []⟩).toOption = none := by
    cases l with
    | broken f | brokenString f =>
      cases p with
      | firstKey | nextKey =>
        cases stack with
        | nil => rfl
        | cons frame stack => cases frame <;> rfl
      | _ => rfl
    | _ => cases hl
  rw [reads, hstep]
  rfl

theorem reads_upToFault (r : Reader) (ls : List Lexeme) : r.reads (upToFault ls) = r.reads ls := by
  induction ls generalizing r with
  | nil => rfl
  | cons l ls ih =>
    cases l with
    | broken f | brokenString f => rw [upToFault, reads_broken r rfl, reads_broken r rfl]
    | _ => simp only [upToFault, reads, ih]

theorem reads_of_mem_broken {ls : List Lexeme} {l : Lexeme} (hmem : l ∈ ls) (hl : l.isBroken) (r : Reader) :
    r.reads ls = none := by
  induction ls generalizing r with
  | nil => cases hmem
  | cons m ls ih =>
    rcases List.mem_cons.1 hmem with rfl | hmem
    · exact reads_broken r hl ls
    · rw [reads]
      cases (r.step ⟨m, []⟩).toOption with
      | none => rfl
      | some r' => exact ih hmem r'

/-! ## Reading a value -/

/-- From any state that awaits a value the reader takes the lexemes of `v` to the state that has it, if there
is room for its containers, and to a fault if there is not. -/
def ReadsValue (v : Value) : Prop :=
  ∀ (p : Phase) (stack : List Frame) (ls : List Lexeme), p.awaitsValue → stack.length ≤ maxDepth →
    reads ⟨p, stack⟩ (v.lexemes ++ ls)
      = if stack.length + v.depth ≤ maxDepth then reads (supply v.normalize stack) ls else none

theorem reads_scalar {l : Lexeme} {v : Value} (hl : l.scalar? = some v) {p : Phase} (hp : p.awaitsValue)
    (stack : List Frame) (ls : List Lexeme) : reads ⟨p, stack⟩ (l :: ls) = reads (supply v stack) ls := by
  rw [reads, step_of_awaitsValue hp (by rintro rfl; cases hl)]
  cases l <;> cases hl <;> rfl

theorem readsValue_scalar {l : Lexeme} {v : Value} (hl : l.scalar? = some v) (hls : v.lexemes = [l])
    (hdepth : v.depth = 0) (hnormal : v.normalize = v) : ReadsValue v := by
  intro p stack ls hp hstack
  rw [hls, List.singleton_append, reads_scalar hl hp, hdepth, hnormal, Nat.add_zero, if_pos hstack]

theorem reads_beginArray {p : Phase} (hp : p.awaitsValue) (stack : List Frame) (ls : List Lexeme) :
    reads ⟨p, stack⟩ (.beginArray :: ls)
      = if stack.length < maxDepth then reads ⟨.firstItem, .array [] :: stack⟩ ls else none := by
  rw [reads, step_of_awaitsValue hp (by simp)]
  simp only [beginValue, openArray]
  split <;> rfl

theorem reads_beginObject {p : Phase} (hp : p.awaitsValue) (stack : List Frame) (ls : List Lexeme) :
    reads ⟨p, stack⟩ (.beginObject :: ls)
      = if stack.length < maxDepth then reads ⟨.firstKey, .object [] "" :: stack⟩ ls else none := by
  rw [reads, step_of_awaitsValue hp (by simp)]
  simp only [beginValue, openObject]
  split <;> rfl

/-- The items after the first, and the closing bracket. -/
theorem reads_items {vs : List Value} (h : ∀ v ∈ vs, ReadsValue v) (acc : List Value) (stack : List Frame)
    (ls : List Lexeme) (hroom : stack.length < maxDepth) :
    reads ⟨.itemEnd, .array acc :: stack⟩ (Value.lexemes.items vs ++ .endArray :: ls)
      = if stack.length + 1 + Value.depth.depthItems vs ≤ maxDepth then
          reads (supply (.array (acc.reverse ++ Value.normalize.normalizeItems vs)) stack) ls
        else none := by
  induction vs generalizing acc with
  | nil =>
    simp only [Value.depth.depthItems, Value.normalize.normalizeItems, List.append_nil]
    exact (if_pos hroom).symm
  | cons v vs ih =>
    have hv := h v List.mem_cons_self .nextItem (.array acc :: stack)
      (Value.lexemes.items vs ++ .endArray :: ls) rfl hroom
    have hvs := ih (fun w hw => h w (List.mem_cons_of_mem _ hw)) (v.normalize :: acc)
    have hitems : acc.reverse ++ Value.normalize.normalizeItems (v :: vs)
        = (v.normalize :: acc).reverse ++ Value.normalize.normalizeItems vs := by
      simp [Value.normalize.normalizeItems]
    have hdepth : stack.length + 1 + Value.depth.depthItems (v :: vs) ≤ maxDepth
        ↔ stack.length + 1 + v.depth ≤ maxDepth ∧ stack.length + 1 + Value.depth.depthItems vs ≤ maxDepth := by
      simp only [Value.depth.depthItems]
      omega
    have hstep : reads ⟨.itemEnd, .array acc :: stack⟩ (Value.lexemes.items (v :: vs) ++ .endArray :: ls)
        = reads ⟨.nextItem, .array acc :: stack⟩ (v.lexemes ++ (Value.lexemes.items vs ++ .endArray :: ls)) := by
      rw [Value.lexemes.items, List.cons_append, List.append_assoc]
      rfl
    rw [hstep, hv, hitems]
    simp only [hdepth, ite_and, ← hvs]
    rfl

/-- The members after the first, and the closing brace. -/
theorem reads_members {ms : Members} (h : ∀ m ∈ ms, ReadsValue m.2) (acc : Members) (key : String)
    (stack : List Frame) (ls : List Lexeme) (hroom : stack.length < maxDepth) :
    reads ⟨.memberEnd, .object acc key :: stack⟩ (Value.lexemes.members ms ++ .endObject :: ls)
      = if stack.length + 1 + Value.depth.depthMembers ms ≤ maxDepth then
          reads (supply (.object (Members.insertAll acc (Value.normalize.normalizeMembers ms))) stack) ls
        else none := by
  induction ms generalizing acc key with
  | nil =>
    simp only [Value.depth.depthMembers, Value.normalize.normalizeMembers, Members.insertAll_nil]
    exact (if_pos hroom).symm
  | cons m ms ih =>
    obtain ⟨k, v⟩ := m
    have hv := h (k, v) List.mem_cons_self .value (.object acc k :: stack)
      (Value.lexemes.members ms ++ .endObject :: ls) rfl hroom
    have hms := ih (fun n hn => h n (List.mem_cons_of_mem _ hn)) (acc.insert k v.normalize) k
    have hdepth : stack.length + 1 + Value.depth.depthMembers ((k, v) :: ms) ≤ maxDepth
        ↔ stack.length + 1 + v.depth ≤ maxDepth ∧ stack.length + 1 + Value.depth.depthMembers ms ≤ maxDepth := by
      simp only [Value.depth.depthMembers]
      omega
    have hstep : reads ⟨.memberEnd, .object acc key :: stack⟩
        (Value.lexemes.members ((k, v) :: ms) ++ .endObject :: ls)
        = reads ⟨.value, .object acc k :: stack⟩ (v.lexemes ++ (Value.lexemes.members ms ++ .endObject :: ls)) := by
      rw [Value.lexemes.members, List.cons_append, List.cons_append, List.cons_append, List.append_assoc]
      rfl
    rw [hstep, hv]
    simp only [hdepth, ite_and, Value.normalize.normalizeMembers, Members.insertAll_cons, ← hms]
    rfl

theorem readsValue_array {items : List Value} (h : ∀ v ∈ items, ReadsValue v) : ReadsValue (.array items) := by
  intro p stack ls hp hstack
  have hbegin (rest : List Lexeme) := reads_beginArray hp stack rest
  by_cases hroom : stack.length < maxDepth
  · simp only [hroom, if_true] at hbegin
    cases items with
    | nil => exact (hbegin (.endArray :: ls)).trans (if_pos hroom).symm
    | cons v vs =>
      have hv := h v List.mem_cons_self .firstItem (.array [] :: stack)
        (Value.lexemes.items vs ++ .endArray :: ls) rfl hroom
      have hvs := reads_items (fun w hw => h w (List.mem_cons_of_mem _ hw)) [v.normalize] stack ls hroom
      have hdepth : stack.length + (Value.array (v :: vs)).depth ≤ maxDepth
          ↔ stack.length + 1 + v.depth ≤ maxDepth ∧ stack.length + 1 + Value.depth.depthItems vs ≤ maxDepth := by
        simp only [Value.depth, Value.depth.depthItems]
        omega
      have hlexemes : (Value.array (v :: vs)).lexemes ++ ls
          = .beginArray :: (v.lexemes ++ (Value.lexemes.items vs ++ .endArray :: ls)) := by simp [Value.lexemes]
      rw [hlexemes, hbegin, hv]
      simp only [hdepth, ite_and]
      exact if_congr Iff.rfl hvs rfl
  · have hdeep : ¬ stack.length + (Value.array items).depth ≤ maxDepth := by
      simp only [Value.depth]
      omega
    simp only [hroom, if_false] at hbegin
    rw [if_neg hdeep]
    cases items <;> exact hbegin _

theorem readsValue_object {members : Members} (h : ∀ m ∈ members, ReadsValue m.2) :
    ReadsValue (.object members) := by
  intro p stack ls hp hstack
  have hbegin (rest : List Lexeme) := reads_beginObject hp stack rest
  by_cases hroom : stack.length < maxDepth
  · simp only [hroom, if_true] at hbegin
    cases members with
    | nil => exact (hbegin (.endObject :: ls)).trans (if_pos hroom).symm
    | cons m ms =>
      obtain ⟨k, v⟩ := m
      have hv := h (k, v) List.mem_cons_self .value (.object [] k :: stack)
        (Value.lexemes.members ms ++ .endObject :: ls) rfl hroom
      have hms := reads_members (fun n hn => h n (List.mem_cons_of_mem _ hn)) [(k, v.normalize)] k stack ls hroom
      have hdepth : stack.length + (Value.object ((k, v) :: ms)).depth ≤ maxDepth
          ↔ stack.length + 1 + v.depth ≤ maxDepth ∧ stack.length + 1 + Value.depth.depthMembers ms ≤ maxDepth := by
        simp only [Value.depth, Value.depth.depthMembers]
        omega
      have hlexemes : (Value.object ((k, v) :: ms)).lexemes ++ ls = .beginObject :: .string k :: .colon
          :: (v.lexemes ++ (Value.lexemes.members ms ++ .endObject :: ls)) := by simp [Value.lexemes]
      have hkey (rest : List Lexeme) : reads ⟨.firstKey, .object [] "" :: stack⟩ (.string k :: .colon :: rest)
          = reads ⟨.value, .object [] k :: stack⟩ rest := rfl
      rw [hlexemes, hbegin, hkey, hv]
      simp only [hdepth, ite_and]
      exact if_congr Iff.rfl hms rfl
  · have hdeep : ¬ stack.length + (Value.object members).depth ≤ maxDepth := by
      simp only [Value.depth]
      omega
    simp only [hroom, if_false] at hbegin
    rw [if_neg hdeep]
    cases members <;> exact hbegin _

theorem readsValue (v : Value) : ReadsValue v := by
  induction v with
  | null | bool | number | string => exact readsValue_scalar rfl rfl rfl rfl
  | array items ih => exact readsValue_array ih
  | object members ih => exact readsValue_object ih

end Reader

/-! ## Printed documents -/

/-- The reader gets to see what a text is spelled with. -/
theorem toOption_readChars_of_spells {cs : List Char} {ls : List Lexeme} (h : Spells cs ls) :
    (readChars cs).toOption = Reader.start.reads ls := by
  have hcs := h [] trivial
  have hnil : lexemes [] = [] := rfl
  rw [List.append_nil, hnil, List.append_nil] at hcs
  have hrun : (Reader.start.run (Token.scan cs)).toOption = Reader.start.reads ls := by
    rw [Reader.toOption_run, ← Reader.reads_upToFault, ← Reader.reads_upToFault _ ls]
    exact congrArg _ hcs
  rw [readChars, ← hrun]
  cases Reader.start.run (Token.scan cs) <;> rfl

/-- From the start the reader takes the lexemes of a value to the value with its members in order. -/
theorem reads_start (v : Value) :
    Reader.start.reads v.lexemes = if v.depth ≤ Reader.maxDepth then some v.normalize else none := by
  have hvalue := Reader.readsValue v .value [] [] rfl (Nat.zero_le _)
  rw [List.length_nil, Nat.zero_add, List.append_nil] at hvalue
  exact hvalue

/-- A text spelled like a value is read as the value with its members in order, unless that is nested too
deep. -/
theorem toOption_readChars {v : Value} {cs : List Char} (h : Spells cs v.lexemes) :
    (readChars cs).toOption = if v.depth ≤ Reader.maxDepth then some v.normalize else none := by
  rw [toOption_readChars_of_spells h, reads_start]

theorem numbersReadBack_of_no_double {v : Value} (h : ∀ x, .number (.double x) ∉ v.subvalues) :
    v.NumbersReadBack := by
  intro n hn
  cases n with
  | integer n hrange => exact readsBack_integer n hrange
  | double x => exact absurd hn (h x)

/-- A document is the only one its text can be read as, whatever the layout. -/
theorem readSchema_of_spells {v : Value} {cs : List Char} (h : Spells cs v.lexemes) (hs : v.Sorted)
    (origin : String) :
    (v.depth ≤ Reader.maxDepth → readSchema origin (String.ofList cs) = .ok v) ∧
      (Reader.maxDepth < v.depth → ∃ e, readSchema origin (String.ofList cs) = .error e) := by
  have hread := toOption_readChars h
  rw [Value.normalize_of_sorted hs] at hread
  rw [readSchema, read, String.toList_ofList]
  constructor
  · intro hdepth
    rw [if_pos hdepth] at hread
    rw [eq_ok_of_toOption hread]
    rfl
  · intro hdepth
    rw [if_neg (Nat.not_le.2 hdepth)] at hread
    cases hr : readChars cs with
    | ok w =>
      rw [hr] at hread
      cases hread
    | error e => exact ⟨_, rfl⟩

/-- A document without doubles is read back from its pretty and from its compact text, up to the depth the
reader allows; neither text of a deeper one is read at all. -/
theorem readSchema_printed {v : Value} (hs : v.Sorted) (hdouble : ∀ x, .number (.double x) ∉ v.subvalues)
    (origin : String) :
    (v.depth ≤ 127 → readSchema origin v.pretty = .ok v ∧ readSchema origin v.compact = .ok v) ∧
      (127 < v.depth → (∃ e, readSchema origin v.pretty = .error e) ∧
        ∃ e, readSchema origin v.compact = .error e) := by
  have hnumbers := numbersReadBack_of_no_double hdouble
  have hpretty := readSchema_of_spells (spells_pretty hnumbers 0) hs origin
  have hcompact := readSchema_of_spells (spells_compact hnumbers) hs origin
  exact ⟨fun h => ⟨hpretty.1 h, hcompact.1 h⟩, fun h => ⟨hpretty.2 h, hcompact.2 h⟩⟩

theorem readSchema_printed_limits :
    (readSchema "schema" (Value.object [("\"\n\x7f", .array [.number (.integer (-0x8000000000000000) (by decide)),
        .number (.integer 0xffffffffffffffff (by decide)), .object []])]).pretty
      = .ok (.object [("\"\n\x7f", .array [.number (.integer (-0x8000000000000000) (by decide)),
        .number (.integer 0xffffffffffffffff (by decide)), .object []])])) ∧
    ∃ e, readSchema "schema" (Value.compact (Nat.repeat (fun v => .array [v]) 128 .null)) = .error e := by
  have hdeep (n : Nat) : (Nat.repeat (fun v => Value.array [v]) n .null).Sorted ∧
      ∀ x, .number (.double x) ∉ (Nat.repeat (fun v => Value.array [v]) n .null).subvalues := by
    induction n with
    | zero => simp [Nat.repeat, Value.Sorted, Value.subvalues]
    | succ n ih => simpa [Nat.repeat, Value.sorted_array, Value.mem_subvalues_array] using ih
  constructor
  · refine ((readSchema_printed ?_ ?_ "schema").1 (by decide)).1
    · simp [Value.Sorted, Value.Sorted.sortedMembers, Value.Sorted.sortedItems, Members.Sorted]
    · simp [Value.subvalues, Value.subvalues.subvaluesMembers, Value.subvalues.subvaluesItems]
  · exact ((readSchema_printed (hdeep 128).1 (hdeep 128).2 "schema").2 (by decide +kernel)).2

end ServiceSchema.Json
