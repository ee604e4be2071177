import ServiceSchema.Profile.Reader
import ServiceSchema.Proofs.Result

/-! # Profiles that are read
A text is read in two steps: its members are read first, and then the profile that they make up is looked at for a
flaw. So a profile that has been read is sound. Members are refused for an unknown or repeated key, and for a collection
in the place of a text. -/
namespace ServiceSchema.Profile
open ServiceSchema.Yaml

variable {text : String} {p q : Profile} {fault : ReadFault} {given : List (Key × String)} {k : Key} {v : String}

/-- The keys of a text with their values, the latest first. -/
def members (text : String) : Except ReadFault (List (Key × String)) :=
  if Text.isBlank text.toList then .ok [] else readOutline (Outline.document (Yaml.scan text.toList))

theorem read_eq (text : String) : read text = members text >>= fun given =>
    match (assemble given).flaw? with
    | some flaw => .error (.flawed flaw)
    | none => .ok (assemble given) := by
  rw [read, members]
  split <;> rfl

theorem read_eq_ok : read text = .ok p ↔
    ∃ given, members text = .ok given ∧ (assemble given).flaw? = none ∧ p = assemble given := by
  rw [read_eq, bind_eq_ok]
  refine exists_congr fun given => and_congr_right fun _ => ?_
  cases (assemble given).flaw? <;> simp [eq_comm]

theorem read_eq_error : read text = .error fault ↔ members text = .error fault ∨
    ∃ given flaw, members text = .ok given ∧ (assemble given).flaw? = some flaw ∧ fault = .flawed flaw := by
  rw [read_eq, bind_eq_error]
  refine or_congr_right (exists_congr fun given => ?_)
  cases (assemble given).flaw? <;> simp [eq_comm]

theorem flaw?_eq_none : p.flaw? = none ↔ p.rawEncoding ≠ "" ∧ p.compiledEncoding ≠ "" ∧
    p.rawEncoding ≠ p.compiledEncoding ∧ p.decodeEntryPrefix ≠ "" ∧ p.encodeEntryPrefix ≠ "" ∧
    p.decodeIncludeSuffix ≠ p.encodeIncludeSuffix := by
  have hrule (broken : Prop) [Decidable broken] (flaw : Flaw) (rest : Option Flaw) :
      (if broken then some flaw else rest) = none ↔ ¬ broken ∧ rest = none := by
    split <;> simp [*]
  simp only [flaw?, hrule, not_or, and_assoc, and_true, ne_eq]

/-! ## Keys -/

theorem Key.ofName?_eq_some {s : String} : Key.ofName? s = some k ↔ s = k.name := by
  constructor
  · intro h
    simpa [eq_comm] using List.find?_some h
  · rintro rfl
    exact Key.ofName?_name k

theorem Key.name_injective : Function.Injective Key.name := fun k k' h =>
  Option.some.inj ((Key.ofName?_name k).symm.trans ((congrArg Key.ofName? h).trans (Key.ofName?_name k')))

/-! ## Members -/

variable {start : Mark} {ending : Ending} {n : Node} {key root : Met} {ms : List Met}

theorem readKey_of_textOf (h : textOf key.node = .ok v) :
    readKey start given key = .ok k ↔ v = k.name ∧ k ∉ given.map Prod.fst := by
  have hany (k : Key) : given.any (·.1 = k) ↔ k ∈ given.map Prod.fst := by simp
  rw [readKey, h]
  simp only [hany, ← Key.ofName?_eq_some]
  cases hname : Key.ofName? v with
  | none => simp
  | some k' =>
    simp only [Option.some_inj]
    split
    case isTrue hrepeated =>
      refine ⟨nofun, ?_⟩
      rintro ⟨rfl, hnew⟩
      exact absurd hrepeated hnew
    case isFalse hnew =>
      refine ⟨?_, ?_⟩
      · rintro ⟨⟩
        exact ⟨rfl, hnew⟩
      · rintro ⟨rfl, -⟩
        rfl

/-- The text that a node stands for; a collection stands for none. -/
inductive Spells : Content → String → Prop where
  | scalar (text : String) (isPlain : Bool) (tag : Option Tag) : Spells (.scalar text isPlain tag) text
  | alias (name : String) : Spells (.alias name) name

theorem textOf_eq_ok : textOf n = .ok v ↔ Spells n.content v := by
  rw [textOf]
  cases n.content <;> constructor <;> rintro ⟨⟩ <;> constructor

theorem readKey_eq_ok (start : Mark) : readKey start given key = .ok k ↔
    Spells key.node.content k.name ∧ k ∉ given.map Prod.fst := by
  cases htext : textOf key.node with
  | ok text => rw [readKey_of_textOf htext, ← textOf_eq_ok, htext, Except.ok.injEq]
  | error found => simp [readKey, htext, ← textOf_eq_ok]

theorem readValue_eq_ok (key : Met) {value : Met} : readValue key value = .ok v ↔ Spells value.node.content v := by
  rw [readValue, ← textOf_eq_ok]
  cases textOf value.node <;> simp

theorem finish_eq_ok {result : List (Key × String)} :
    finish given ending = .ok result ↔ ending = .complete false ∧ given = result := by
  obtain (⟨_ | _⟩ | f) := ending <;> simp [finish]

/-- Keys and values take turns. -/
def keys : List Met → List Met
  | [] => []
  | [key] => [key]
  | key :: _ :: rest => key :: keys rest

def values : List Met → List Met
  | [] | [_] => []
  | _ :: value :: rest => value :: values rest

/-- What is wrong with members, whatever they end with. -/
inductive Wrong (ms : List Met) : Prop where
  | unknownKey {key : Met} (mem : key ∈ keys ms) (unknown : ∀ k : Key, ¬ Spells key.node.content k.name) : Wrong ms
  | repeatedKey {k : Key} {key key' : Met} (twice : [key, key'].Sublist (keys ms))
      (first : Spells key.node.content k.name) (again : Spells key'.node.content k.name) : Wrong ms
  | noText {value : Met} (mem : value ∈ values ms) (collection : ∀ text, ¬ Spells value.node.content text) : Wrong ms

theorem not_wrong : ¬ Wrong ms ↔ (∀ key ∈ keys ms, ∃ k : Key, Spells key.node.content k.name) ∧
    ((keys ms).Pairwise fun a b => ∀ k : Key, Spells a.node.content k.name → ¬ Spells b.node.content k.name) ∧
    ∀ value ∈ values ms, ∃ text, Spells value.node.content text := by
  rw [List.pairwise_iff_forall_sublist]
  constructor
  · intro h
    refine ⟨fun key mem => ?_, fun twice k first again => h (.repeatedKey twice first again), fun value mem => ?_⟩
    · exact Classical.byContradiction fun unknown => h (.unknownKey mem (not_exists.1 unknown))
    · exact Classical.byContradiction fun collection => h (.noText mem (not_exists.1 collection))
  · rintro ⟨hknown, hdistinct, htexts⟩ (⟨mem, unknown⟩ | ⟨twice, first, again⟩ | ⟨mem, collection⟩)
    · obtain ⟨k, hk⟩ := hknown _ mem
      exact unknown k hk
    · exact hdistinct twice _ first again
    · obtain ⟨text, htext⟩ := htexts _ mem
      exact collection text htext

theorem Spells.unique {content : Content} {s : String} (h : Spells content v) (h' : Spells content s) : v = s := by
  cases h <;> cases h' <;> rfl

theorem readMembers_pair {value : Met} {rest : List Met} {result : List (Key × String)} :
    readMembers start ending given (key :: value :: rest) = .ok result ↔
      ∃ k, (Spells key.node.content k.name ∧ k ∉ given.map Prod.fst) ∧ ∃ text, Spells value.node.content text ∧
        readMembers start ending ((k, text) :: given) rest = .ok result := by
  rw [readMembers, bind_eq_ok]
  refine exists_congr fun k => and_congr (readKey_eq_ok start) (bind_eq_ok.trans ?_)
  exact exists_congr fun text => and_congr_left' (readValue_eq_ok key)

/-- Members are read when nothing is wrong with them, their keys are new, and nothing is wrong behind them. -/
theorem exists_readMembers : (∃ result, readMembers start ending given ms = .ok result) ↔
    ending = .complete false ∧ ¬ Wrong ms ∧
      ∀ key ∈ keys ms, ∀ k ∈ given.map Prod.fst, ¬ Spells key.node.content k.name := by
  rw [not_wrong]
  induction given, ms using readMembers.induct with
  | case1 given => simp [readMembers, finish_eq_ok, keys, values]
  | case2 given key =>
    have hread (result : List (Key × String)) : readMembers start ending given [key] = .ok result ↔
        ∃ k, readKey start given key = .ok k ∧ finish given ending = .ok result := bind_eq_ok
    simp only [hread, readKey_eq_ok, finish_eq_ok, keys, values, List.forall_mem_singleton]
    constructor
    · rintro ⟨result, k, ⟨hk, hnew⟩, hending, -⟩
      refine ⟨hending, ⟨⟨k, hk⟩, List.pairwise_singleton _ _, nofun⟩, fun k' hk' hspells => hnew ?_⟩
      rwa [Key.name_injective (hk.unique hspells)]
    · rintro ⟨hending, ⟨⟨k, hk⟩, -, -⟩, hnew⟩
      exact ⟨given, k, ⟨hk, fun hmem => hnew k hmem hk⟩, hending, rfl⟩
  | case3 given key value rest ih =>
    simp only [readMembers_pair, keys, values, List.forall_mem_cons, List.pairwise_cons]
    constructor
    · rintro ⟨result, k, ⟨hk, hnew⟩, text, htext, hrest⟩
      obtain ⟨hending, ⟨hknown, hdistinct, htexts⟩, hfresh⟩ := (ih k text).1 ⟨result, hrest⟩
      have hself {k' : Key} (hspells : Spells key.node.content k'.name) : k' = k :=
        Key.name_injective (hspells.unique hk)
      refine ⟨hending, ⟨⟨⟨k, hk⟩, hknown⟩, ⟨fun b hb k' hspells => ?_, hdistinct⟩, ⟨text, htext⟩, htexts⟩, ?_, ?_⟩
      · exact hself hspells ▸ hfresh b hb k List.mem_cons_self
      · exact fun k' hk' hspells => hnew (hself hspells ▸ hk')
      · exact fun b hb k' hk' => hfresh b hb k' (List.mem_cons_of_mem _ hk')
    · rintro ⟨hending, ⟨⟨⟨k, hk⟩, hknown⟩, ⟨hapart, hdistinct⟩, ⟨text, htext⟩, htexts⟩, hnew, hfresh⟩
      have hrest := (ih k text).2 ⟨hending, ⟨hknown, hdistinct, htexts⟩, fun b hb =>
        List.forall_mem_cons.2 ⟨hapart b hb k hk, hfresh b hb⟩⟩
      obtain ⟨result, hresult⟩ := hrest
      exact ⟨result, k, ⟨hk, fun hmem => hnew k hmem hk⟩, text, htext, hresult⟩

/-! ## Texts -/

inductive NoMapping : Content → Prop where
  | sequence : NoMapping .sequence
  | scalar {text : String} {isPlain : Bool} {tag : Option Tag} (shown : ¬ (text = "" ∧ isPlain)) :
      NoMapping (.scalar text isPlain tag)

/-- What the nodes of a text, or what ends them, are no profile for. -/
inductive Unfit : List Met → Ending → Prop where
  | ending {ms : List Met} {ending : Ending} (broken : ending ≠ .complete false) : Unfit ms ending
  | root {root : Met} {ms : List Met} {ending : Ending} (noMapping : NoMapping root.node.content) :
      Unfit (root :: ms) ending
  | member {root : Met} {ms : List Met} {ending : Ending} (content : root.node.content = .mapping) (wrong : Wrong ms) :
      Unfit (root :: ms) ending

theorem unfit_nil : Unfit [] ending ↔ ending ≠ .complete false :=
  ⟨fun | .ending broken => broken, .ending⟩

theorem unfit_cons : Unfit (root :: ms) ending ↔
    ending ≠ .complete false ∨ NoMapping root.node.content ∨ root.node.content = .mapping ∧ Wrong ms := by
  constructor
  · rintro (broken | noMapping | ⟨content, wrong⟩)
    · exact .inl broken
    · exact .inr (.inl noMapping)
    · exact .inr (.inr ⟨content, wrong⟩)
  · rintro (broken | noMapping | ⟨content, wrong⟩)
    · exact .ending broken
    · exact .root noMapping
    · exact .member content wrong

theorem exists_finish : (∃ result, finish given ending = .ok result) ↔ ending = .complete false := by
  simp [finish_eq_ok]

theorem exists_readOutline {o : Outline} : (∃ result, readOutline o = .ok result) ↔
    ¬ Unfit o.resolved.1 o.resolved.2 := by
  rw [readOutline]
  obtain ⟨_ | ⟨root, ms⟩, ending⟩ := o.resolved
  · rw [unfit_nil, Classical.not_not, exists_finish]
  · rw [unfit_cons, not_or, Classical.not_not, not_or]
    obtain ⟨⟨content, anchor, mark⟩, isAlias⟩ := root
    cases content with
    | mapping =>
      have hmapping : ¬ NoMapping .mapping := nofun
      simp [exists_readMembers, hmapping]
    | sequence => simp [NoMapping.sequence]
    | scalar text isPlain tag =>
      have hscalar : NoMapping (.scalar text isPlain tag) ↔ ¬ (text = "" ∧ isPlain) :=
        ⟨fun | .scalar shown => shown, .scalar⟩
      simp only [hscalar]
      split <;> simp [exists_finish, *]
    | «alias» name =>
      have halias : ¬ NoMapping (.alias name) := nofun
      simp [exists_finish, halias]

/-- A text that is no profile, whatever the values of the keys are. -/
def IllFormed (text : String) : Prop :=
  let nodes := (Outline.document (Yaml.scan text.toList)).resolved
  Text.isBlank text.toList = false ∧ Unfit nodes.1 nodes.2

theorem members_eq_error : (∃ fault, members text = .error fault) ↔ IllFormed text := by
  rw [members, IllFormed]
  split
  · simp [*]
  · rw [exists_error_iff, exists_readOutline, Classical.not_not]
    simp [*]

/-! ## Assembled profiles -/

/-- The latest member is set last. -/
theorem assemble_cons (m : Key × String) (given : List (Key × String)) :
    assemble (m :: given) = (assemble given).set m.1 m.2 := rfl

theorem get_assemble_of_mem (hnodup : (given.map Prod.fst).Nodup) (h : (k, v) ∈ given) :
    (assemble given).get k = v := by
  induction given with
  | nil => cases h
  | cons m rest ih =>
    obtain ⟨hnot, hrest⟩ := List.nodup_cons.1 hnodup
    rw [assemble_cons]
    rcases List.mem_cons.1 h with rfl | hmem
    · exact get_set_self ..
    · have hne : k ≠ m.1 := fun heq => hnot (heq ▸ List.mem_map_of_mem hmem)
      rw [get_set_of_ne _ _ hne, ih hrest hmem]

theorem get_assemble_of_not_mem (h : k ∉ given.map Prod.fst) : (assemble given).get k = standard.get k := by
  induction given with
  | nil => rfl
  | cons m rest ih =>
    rw [List.map_cons, List.mem_cons, not_or] at h
    rw [assemble_cons, get_set_of_ne _ _ h.1, ih h.2]

theorem ext_get (h : ∀ k, p.get k = q.get k) : p = q := by
  obtain ⟨p₁, p₂, p₃, p₄, p₅, p₆⟩ := p
  obtain ⟨q₁, q₂, q₃, q₄, q₅, q₆⟩ := q
  obtain rfl : p₁ = q₁ := h .rawEncoding
  obtain rfl : p₂ = q₂ := h .compiledEncoding
  obtain rfl : p₃ = q₃ := h .decodeEntryPrefix
  obtain rfl : p₄ = q₄ := h .encodeEntryPrefix
  obtain rfl : p₅ = q₅ := h .decodeIncludeSuffix
  obtain rfl : p₆ = q₆ := h .encodeIncludeSuffix
  rfl

end ServiceSchema.Profile
