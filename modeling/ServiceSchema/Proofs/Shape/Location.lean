import ServiceSchema.Category
import ServiceSchema.Proofs.Json.Pointer
import ServiceSchema.Proofs.Shape

/-! # Where violations are
A violation stands at a place that one of the rules is about, and the value found there breaks this rule itself,
not through what is within it. -/
namespace ServiceSchema.Shape
open ServiceSchema.Json

/-! ## Rules and places -/

theorem Rule.induction {motive : Rule → Prop}
    (kinds : ∀ ks, motive (.kinds ks))
    (integer : ∀ bound, motive (.integer bound))
    (list : ∀ item ks, motive item → motive (.list item ks))
    (object : ∀ (properties : List (String × Rule)) required, (∀ p ∈ properties, motive p.2) →
      motive (.object properties required)) :
    ∀ r, motive r :=
  @Rule.rec motive (fun properties => ∀ p ∈ properties, motive p.2) (fun p => motive p.2) kinds integer list object
    (fun _ h => absurd h List.not_mem_nil)
    (fun _ _ hp ih q hq => (List.mem_cons.1 hq).elim (fun h => h ▸ hp) (ih q))
    (fun _ _ hr => hr)

/-- The rule of a document has another one for the place that a pointer leads to. -/
inductive Rule.Reaches : Rule → Pointer → Rule → Prop where
  | here (r : Rule) : Reaches r [] r
  | item {item q : Rule} {p : Pointer} (ks : List Kind) (i : Nat) (h : Reaches item p q) :
    Reaches (.list item ks) (.index i :: p) q
  | property {properties : List (String × Rule)} {key : String} {r q : Rule} {p : Pointer} (required : List String)
    (hr : (key, r) ∈ properties) (h : Reaches r p q) : Reaches (.object properties required) (.key key :: p) q

def ObjectWith (keys : List String) (v : Value) : Prop :=
  ∃ ms, v = .object ms ∧ ∀ k ∈ keys, ∃ w, Members.get? k ms = some w

/-- What a rule asks of a value itself, whatever is within. -/
def Rule.Admits : Rule → Value → Prop
  | .kinds ks, v => ∃ k ∈ ks, k.admits v
  | .integer bound, v => IntegerWithin bound v
  | .list _ ks, v => ∃ k ∈ ks, k.admits v
  | .object _ required, v => ObjectWith required v

/-! ## Violations of single rules -/

theorem mem_kindViolations {ks : List Kind} {v : Value} {x : Violation} (hx : x ∈ kindViolations ks v) :
    x.path = [] ∧ x.value = v ∧ ¬ ∃ k ∈ ks, k.admits v := by
  rw [← kindViolations_eq_nil]
  refine ⟨?_, ?_, List.ne_nil_of_mem hx⟩
  all_goals
    unfold kindViolations at hx
    split at hx
    · cases hx
    · rw [List.mem_singleton.1 hx]

theorem mem_boundViolations {bound : Nat} {v : Value} {x : Violation} (hx : x ∈ boundViolations bound v) :
    x.path = [] ∧ x.value = v ∧ ¬ IntegerWithin bound v := by
  cases v with
  | number n =>
    have hbroken : ¬ IntegerWithin bound (.number n) := by
      intro hn
      have hkept := kept_integer.2 hn
      rw [Rule.Kept, Rule.violations, List.append_eq_nil_iff] at hkept
      exact List.ne_nil_of_mem hx hkept.1
    rw [boundViolations, List.mem_append] at hx
    obtain hx | hx := hx
    all_goals
      split at hx
      · rw [List.mem_singleton.1 hx]
        exact ⟨rfl, rfl, hbroken⟩
      · cases hx
  | _ => cases hx

theorem mem_requiredViolations {required : List String} {v : Value} {x : Violation}
    (hx : x ∈ requiredViolations required v) : x.path = [] ∧ x.value = v ∧ ¬ ObjectWith required v := by
  cases v with
  | object ms =>
    obtain ⟨k, hk, rfl⟩ := List.mem_map.1 hx
    refine ⟨rfl, rfl, ?_⟩
    rintro ⟨_, hms, hrequired⟩
    cases hms
    obtain ⟨w, hw⟩ := hrequired k (List.mem_filter.1 hk).1
    simp [hw] at hk
  | _ => cases hx

theorem mem_itemViolations {check : Value → List Violation} {i : Nat} {vs : List Value} {x : Violation}
    (hx : x ∈ itemViolations check i vs) :
    ∃ j v y, vs[j]? = some v ∧ y ∈ check v ∧ x = y.within (.index (i + j)) := by
  induction vs generalizing i with
  | nil => cases hx
  | cons v vs ih =>
    rw [itemViolations, List.mem_append] at hx
    obtain hx | hx := hx
    · obtain ⟨y, hy, rfl⟩ := List.mem_map.1 hx
      exact ⟨0, v, y, rfl, hy, rfl⟩
    · obtain ⟨j, w, y, hw, hy, rfl⟩ := ih hx
      exact ⟨j + 1, w, y, hw, hy, by rw [Nat.add_right_comm, Nat.add_assoc]⟩

theorem mem_propertyViolations {properties : List (String × Rule)} {ms : Members} {x : Violation}
    (hx : x ∈ Rule.violations.propertyViolations properties ms) :
    ∃ key r v y, (key, r) ∈ properties ∧ Members.get? key ms = some v ∧ y ∈ r.violations v ∧
      x = y.within (.key key) := by
  induction properties with
  | nil => simp [Rule.violations.propertyViolations] at hx
  | cons p rest ih =>
    obtain ⟨key, r⟩ := p
    rw [Rule.violations.propertyViolations, List.mem_append] at hx
    obtain hx | hx := hx
    · cases hv : Members.get? key ms with
      | none => simp [hv] at hx
      | some v =>
        rw [hv] at hx
        obtain ⟨y, hy, rfl⟩ := List.mem_map.1 hx
        exact ⟨key, r, v, y, List.mem_cons_self, hv, hy, rfl⟩
    · obtain ⟨key', r', v, y, hmem, hv, hy, rfl⟩ := ih hx
      exact ⟨key', r', v, y, List.mem_cons_of_mem _ hmem, hv, hy, rfl⟩

/-! ## Violations of nested rules -/

/-- The violation is of the rule that is reached at its place. -/
structure Rule.Blames (r : Rule) (v : Value) (x : Violation) : Prop where
  broken : ∃ q, r.Reaches x.path q ∧ ¬ q.Admits x.value
  found : x.path.resolve v = some x.value

theorem Rule.blames_of_nil {r : Rule} {v : Value} {x : Violation} (hpath : x.path = []) (hvalue : x.value = v)
    (h : ¬ r.Admits v) : r.Blames v x := by
  refine ⟨⟨r, ?_, ?_⟩, ?_⟩
  · rw [hpath]
    exact .here r
  · rwa [hvalue]
  · rw [hpath, hvalue, Pointer.resolve_nil]

theorem Rule.Blames.within {r q : Rule} {v w : Value} {s : Step} {x : Violation} (hs : s.follow v = some w)
    (hreach : ∀ {p q'}, q.Reaches p q' → r.Reaches (s :: p) q') (h : q.Blames w x) : r.Blames v (x.within s) := by
  obtain ⟨⟨q', hq', hbroken⟩, hfound⟩ := h
  refine ⟨⟨q', hreach hq', hbroken⟩, ?_⟩
  change Pointer.resolve (s :: x.path) v = some x.value
  rw [Pointer.resolve_cons, hs]
  exact hfound

theorem Rule.blames_of_mem {r : Rule} {v : Value} {x : Violation} (hx : x ∈ r.violations v) : r.Blames v x := by
  induction r using Rule.induction generalizing v x with
  | kinds ks =>
    rw [Rule.violations] at hx
    obtain ⟨hpath, hvalue, hbroken⟩ := mem_kindViolations hx
    exact blames_of_nil hpath hvalue hbroken
  | integer bound =>
    rw [Rule.violations, List.mem_append] at hx
    obtain hx | hx := hx
    · obtain ⟨hpath, hvalue, hbroken⟩ := mem_boundViolations hx
      exact blames_of_nil hpath hvalue hbroken
    · obtain ⟨hpath, hvalue, hbroken⟩ := mem_kindViolations hx
      refine blames_of_nil hpath hvalue fun hwithin => hbroken ?_
      obtain ⟨n, k, rfl, hk, hn⟩ := hwithin
      exact ⟨.integer, List.mem_singleton_self _, (Number.denotes_within.2 ⟨k, hk, hn⟩).2.2⟩
  | list item ks ih =>
    unfold Rule.violations at hx
    obtain hx | hx := List.mem_append.1 hx
    · split at hx
      · obtain ⟨j, w, y, hw, hy, rfl⟩ := mem_itemViolations hx
        rw [Nat.zero_add]
        exact (ih hy).within hw (.item ks j)
      · cases hx
    · obtain ⟨hpath, hvalue, hbroken⟩ := mem_kindViolations hx
      exact blames_of_nil hpath hvalue hbroken
  | object properties required ih =>
    unfold Rule.violations at hx
    rw [List.mem_append, List.mem_append] at hx
    obtain (hx | hx) | hx := hx
    · split at hx
      · obtain ⟨key, q, w, y, hq, hw, hy, rfl⟩ := mem_propertyViolations hx
        exact (ih _ hq hy).within hw (.property required hq)
      · cases hx
    · obtain ⟨hpath, hvalue, hbroken⟩ := mem_requiredViolations hx
      exact blames_of_nil hpath hvalue hbroken
    · obtain ⟨hpath, hvalue, hbroken⟩ := mem_kindViolations hx
      refine blames_of_nil hpath hvalue fun hwith => hbroken ?_
      obtain ⟨ms, rfl, -⟩ := hwith
      exact ⟨.object, List.mem_singleton_self _, rfl⟩

/-! ## Faults of services -/

inductive FaultyInEntry : Pointer → Value → Prop where
  | entry {v : Value} (h : ¬ ObjectWith ["id", "name", "type"] v) : FaultyInEntry [] v
  | id {v : Value} (h : ¬ IntegerWithin 65535 v) : FaultyInEntry [.key "id"] v
  | name {v : Value} (h : ¬ IsString v) : FaultyInEntry [.key "name"] v
  | type {v : Value} (h : ¬ IsString v) : FaultyInEntry [.key "type"] v
  | encoding {v : Value} (hnull : v ≠ .null) (hstring : ¬ IsString v) : FaultyInEntry [.key "encoding"] v

/-- A value at a place of a service that it must not stand at. -/
inductive Faulty : Pointer → Value → Prop where
  | document {v : Value} (h : ¬ ObjectWith ["type", "version", "inputs", "outputs"] v) : Faulty [] v
  | type {v : Value} (h : ¬ IsString v) : Faulty [.key "type"] v
  | version {v : Value} (h : ¬ IntegerWithin 4294967295 v) : Faulty [.key "version"] v
  | inputs {v : Value} (h : ¬ ∃ vs, v = .array vs) : Faulty [.key "inputs"] v
  | outputs {v : Value} (h : ¬ ∃ vs, v = .array vs) : Faulty [.key "outputs"] v
  | registers {v : Value} (hnull : v ≠ .null) (harray : ¬ ∃ vs, v = .array vs) : Faulty [.key "registers"] v
  | entry {v : Value} {p : Pointer} (c : Category) (i : Nat) (h : FaultyInEntry p v) :
    Faulty (.key c.key :: .index i :: p) v

theorem admits_string_kind {v : Value} : (Rule.kinds [.string]).Admits v ↔ IsString v := by
  rw [Rule.Admits, ← kept_kinds, kept_string]

theorem Rule.Reaches.eq_of_kinds {ks : List Kind} {p : Pointer} {q : Rule} (h : (Rule.kinds ks).Reaches p q) :
    p = [] ∧ q = .kinds ks := by
  cases h
  exact ⟨rfl, rfl⟩

theorem Rule.Reaches.eq_of_integer {bound : Nat} {p : Pointer} {q : Rule} (h : (Rule.integer bound).Reaches p q) :
    p = [] ∧ q = .integer bound := by
  cases h
  exact ⟨rfl, rfl⟩

theorem faultyInEntry_of_reaches {p : Pointer} {q : Rule} {v : Value} (hreach : entry.Reaches p q)
    (hbroken : ¬ q.Admits v) : FaultyInEntry p v := by
  cases hreach with
  | here => exact .entry hbroken
  | property required hr h =>
    simp only [List.mem_cons, Prod.mk.injEq, List.not_mem_nil, or_false] at hr
    obtain ⟨rfl, rfl⟩ | ⟨rfl, rfl⟩ | ⟨rfl, rfl⟩ | ⟨rfl, rfl⟩ := hr
    · obtain ⟨rfl, rfl⟩ := h.eq_of_kinds
      rw [Rule.Admits, ← kept_kinds, kept_encoding, not_or] at hbroken
      exact .encoding hbroken.1 hbroken.2
    · obtain ⟨rfl, rfl⟩ := h.eq_of_integer
      exact .id hbroken
    · obtain ⟨rfl, rfl⟩ := h.eq_of_kinds
      exact .name (mt admits_string_kind.2 hbroken)
    · obtain ⟨rfl, rfl⟩ := h.eq_of_kinds
      exact .type (mt admits_string_kind.2 hbroken)

theorem faulty_of_list {c : Category} {ks : List Kind} {p : Pointer} {q : Rule} {v : Value}
    (hreach : (Rule.list entry ks).Reaches p q) (hbroken : ¬ q.Admits v)
    (hself : ¬ (∃ k ∈ ks, k.admits v) → Faulty [.key c.key] v) : Faulty (.key c.key :: p) v := by
  cases hreach with
  | here => exact hself hbroken
  | item _ i h => exact .entry c i (faultyInEntry_of_reaches h hbroken)

theorem faulty_of_reaches {p : Pointer} {q : Rule} {v : Value} (hreach : service.Reaches p q)
    (hbroken : ¬ q.Admits v) : Faulty p v := by
  cases hreach with
  | here => exact .document hbroken
  | property required hr h =>
    simp only [List.mem_cons, Prod.mk.injEq, List.not_mem_nil, or_false] at hr
    obtain ⟨rfl, rfl⟩ | ⟨rfl, rfl⟩ | ⟨rfl, rfl⟩ | ⟨rfl, rfl⟩ | ⟨rfl, rfl⟩ := hr
    · refine faulty_of_list (c := .input) h hbroken fun hkind => .inputs ?_
      simpa [admits_array] using hkind
    · refine faulty_of_list (c := .output) h hbroken fun hkind => .outputs ?_
      simpa [admits_array] using hkind
    · refine faulty_of_list (c := .register) h hbroken fun hkind => ?_
      have hneither : ¬ (∃ vs, v = .array vs) ∧ v ≠ .null := by simpa [admits_array, admits_null] using hkind
      exact .registers hneither.2 hneither.1
    · obtain ⟨rfl, rfl⟩ := h.eq_of_kinds
      exact .type (mt admits_string_kind.2 hbroken)
    · obtain ⟨rfl, rfl⟩ := h.eq_of_integer
      exact .version hbroken

/-- The location of the first violation is the whole document, or the text of a pointer to a value that is there;
the value found breaks the rule of its place. -/
theorem location_faulty {v : Value} {x : Violation} (h : firstViolation v = some x) :
    x.location = "(root)" ∧ Faulty [] v ∨
      ∃ p w, p ≠ [] ∧ x.location = Pointer.render p ∧ Pointer.lookup x.location v = some w ∧ Faulty p w := by
  obtain ⟨⟨q, hreach, hbroken⟩, hfound⟩ := Rule.blames_of_mem (List.mem_of_mem_head? h)
  have hfaulty := faulty_of_reaches hreach hbroken
  by_cases hpath : x.path = []
  · rw [hpath, Pointer.resolve_nil, Option.some.injEq] at hfound
    rw [hpath, ← hfound] at hfaulty
    exact .inl ⟨if_pos hpath, hfaulty⟩
  · have hlocation : x.location = Pointer.render x.path := if_neg hpath
    refine .inr ⟨x.path, x.value, hpath, hlocation, ?_, hfaulty⟩
    rw [hlocation]
    exact Pointer.lookup_render hfound

/-- A document whose only entry has a negative id. It has no outputs, either. -/
def negativeId : Value := .object [
  ("inputs", .array [.object [
    ("id", .number (.integer (-1) (by decide))),
    ("name", .string "rate"),
    ("type", .string "uint8_t")]]),
  ("type", .string "Echo"),
  ("version", .number (.ofWord 1))]

theorem location_negativeId : ∃ x, firstViolation negativeId = some x ∧ x.location = "/inputs/0/id" ∧
    (x.location = "(root)" ∧ Faulty [] negativeId ∨
      ∃ p w, p ≠ [] ∧ x.location = Pointer.render p ∧ Pointer.lookup x.location negativeId = some w ∧
        Faulty p w) := by
  have hfirst : firstViolation negativeId =
      some ⟨[.key "inputs", .index 0, .key "id"], .number (.integer (-1) (by decide)), .below 0⟩ := by
    decide +kernel
  exact ⟨_, hfirst, by decide, location_faulty hfirst⟩

end ServiceSchema.Shape
