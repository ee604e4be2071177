import Mathlib.Data.List.Nodup
import ServiceSchema.Compiler
import ServiceSchema.Proofs.Profile
import ServiceSchema.Proofs.Yaml.Outline

/-! # Profiles written line by line
A profile may be written as lines that give texts in double quotes to keys. Such lines are a profile if they have
different keys of the six, in any order; then they override exactly these, and it is the result that must be sound. -/
namespace ServiceSchema

def StartsLowerIdentifier (c : Char) : Prop := ('a' ≤ c ∧ c ≤ 'z') ∨ c = '_'

instance : DecidablePred StartsLowerIdentifier := fun c => inferInstanceAs (Decidable (('a' ≤ c ∧ c ≤ 'z') ∨ c = '_'))

/-- A small letter or an underscore, and then small letters, underscores and digits. -/
def LowerIdentifier (s : String) : Prop := ∃ c cs, s.toList = c :: cs ∧ StartsLowerIdentifier c ∧
  ∀ d ∈ cs, StartsLowerIdentifier d ∨ ('0' ≤ d ∧ d ≤ '9')

theorem StartsLowerIdentifier.startsCIdentifier {c : Char} (h : StartsLowerIdentifier c) : StartsCIdentifier c := .inr h

theorem LowerIdentifier.cIdentifier {s : String} (h : LowerIdentifier s) : CIdentifier s := by
  obtain ⟨c, cs, hs, hc, hcs⟩ := h
  exact ⟨c, cs, hs, hc.startsCIdentifier, fun d hd => (hcs d hd).imp_left (·.startsCIdentifier)⟩

namespace Profile

variable {given pairs : List (Key × String)} {k : Key} {v : String}

/-! ## Lines -/

/-- A line that gives a text to a key. -/
structure Line where
  key : String
  value : String
  identifier : LowerIdentifier key
  printable : ∀ c ∈ value.toList, (' ' ≤ c ∧ c ≤ '~') ∧ c ≠ '"' ∧ c ≠ '\\'

/-- Every key can be written in a line. -/
theorem lowerIdentifier_name (k : Key) : LowerIdentifier k.name := by
  have hall (cs : List Char) (h : cs.all fun d => StartsLowerIdentifier d ∨ ('0' ≤ d ∧ d ≤ '9')) :
      ∀ d ∈ cs, StartsLowerIdentifier d ∨ ('0' ≤ d ∧ d ≤ '9') := by simpa using h
  cases k <;> exact ⟨_, _, rfl, by decide, hall _ (by decide)⟩

namespace Line

def text (l : Line) : String := l.key ++ ": \"" ++ l.value ++ "\""

/-- The lines as a text, with a line feed behind the last or without one. -/
def written (lines : List Line) (ended : Bool) : String :=
  "\n".intercalate (lines.map text) ++ if ended then "\n" else ""

theorem isAllowed_of_printable {c : Char} (h : ' ' ≤ c ∧ c ≤ '~') : Yaml.isAllowed c := by
  have hrange : 0x20 ≤ c.toNat ∧ c.toNat ≤ 0x7E := h
  simp [Yaml.isAllowed, hrange]

theorem isBreak_of_printable {c : Char} (h : ' ' ≤ c ∧ c ≤ '~') : Yaml.isBreak c = false := by
  have hrange : 0x20 ≤ c.toNat ∧ c.toNat ≤ 0x7E := h
  have hfeed : c ≠ '\n' := by rintro rfl; exact absurd h.1 (by decide)
  have hreturn : c ≠ '\r' := by rintro rfl; exact absurd h.1 (by decide)
  simp [Yaml.isBreak, hfeed, hreturn]
  omega

def yaml (l : Line) : Yaml.Line where
  key := l.key
  value := l.value
  named := l.identifier.cIdentifier
  verbatim := by
    intro c hc
    obtain ⟨hrange, hquote, hslash⟩ := l.printable c hc
    exact ⟨isBreak_of_printable hrange, hquote, hslash⟩
  allowed := fun c hc => isAllowed_of_printable (l.printable c hc).1

theorem toList_text (l : Line) (rest : List Char) : l.text.toList ++ rest = l.yaml.spelled rest := by
  simp [text, Yaml.Line.spelled, yaml]

theorem toList_written (l : Line) (ls : List Line) (ended : Bool) :
    (written (l :: ls) ended).toList = l.yaml.spelled (Yaml.Line.following ended (ls.map yaml)) := by
  have hjoin : ['\n'].intercalate (((l :: ls).map text).map String.toList) ++ (if ended then ['\n'] else []) =
      l.yaml.spelled (Yaml.Line.following ended (ls.map yaml)) := by
    induction ls generalizing l with
    | nil => simp [Yaml.Line.following, ← toList_text]
    | cons m ms ih => simp [Yaml.Line.following, ← toList_text, List.intercalate_cons_cons, ← ih m]
  rw [← hjoin, written, String.toList_append, String.toList_intercalate]
  cases ended <;> rfl

end Line

/-! ## Members -/

variable {start : Yaml.Mark} {ending : Yaml.Ending} {l : Yaml.Line} {ls : List Yaml.Line}
  {result : List (Key × String)}

/-- Nodes without aliases, as they are met. -/
def met (nodes : List Yaml.Node) : List Yaml.Met := nodes.map fun m => ⟨m, false⟩

/-- What is read of a line, before the next ones. -/
theorem readMembers_line {i : Nat} {rest : List Yaml.Met} :
    readMembers start ending given (met (l.nodes i) ++ rest) = .ok result ↔
      ∃ k : Key, (l.key = k.name ∧ k ∉ given.map Prod.fst) ∧
        readMembers start ending ((k, l.value) :: given) rest = .ok result := by
  have hkey (k : Key) : readKey start given ⟨⟨.scalar l.key true none, none, ⟨i, 0⟩⟩, false⟩ = .ok k ↔
      l.key = k.name ∧ k ∉ given.map Prod.fst := readKey_of_textOf rfl
  simp only [← hkey]
  exact bind_eq_ok

def named (pairs : List (Key × String)) : List (String × String) := pairs.map fun m => (m.1.name, m.2)

/-- The members of lines: the keys are known and new, and nothing is wrong behind them. -/
theorem readMembers_lines {i : Nat} : readMembers start ending given (met (Yaml.Line.allNodes i ls)) = .ok result ↔
    ending = .complete false ∧ ∃ pairs, ls.map (fun l => (l.key, l.value)) = named pairs ∧
      (pairs.map Prod.fst).Nodup ∧ (∀ m ∈ pairs, m.1 ∉ given.map Prod.fst) ∧ result = pairs.reverse ++ given := by
  induction ls generalizing i given with
  | nil =>
    have hfinish : finish given ending = .ok result ↔ ending = .complete false ∧ result = given := by
      obtain (⟨_ | _⟩ | f) := ending <;> simp [finish, eq_comm]
    refine hfinish.trans (and_congr_right fun _ => ⟨?_, ?_⟩)
    · rintro rfl
      exact ⟨[], by simp [named]⟩
    · rintro ⟨pairs, hspelled, -, -, rfl⟩
      simpa [named] using hspelled
  | cons l ls ih =>
    have hnodes : met (Yaml.Line.allNodes i (l :: ls)) = met (l.nodes i) ++ met (Yaml.Line.allNodes (i + 1) ls) := by
      simp [met, Yaml.Line.allNodes]
    rw [hnodes, readMembers_line]
    constructor
    · rintro ⟨k, ⟨hkey, hnew⟩, hrest⟩
      obtain ⟨hending, pairs, hspelled, hnodup, hfresh, rfl⟩ := ih.1 hrest
      have hapart : k ∉ pairs.map Prod.fst := fun hmem => by
        obtain ⟨m, hm, rfl⟩ := List.mem_map.1 hmem
        exact hfresh m hm List.mem_cons_self
      refine ⟨hending, (k, l.value) :: pairs, ?_, List.nodup_cons.2 ⟨hapart, hnodup⟩, ?_, ?_⟩
      · rw [List.map_cons, hspelled, hkey, named, named, List.map_cons]
      · exact List.forall_mem_cons.2 ⟨hnew, fun m hm hgiven => hfresh m hm (List.mem_cons_of_mem _ hgiven)⟩
      · simp
    · rintro ⟨hending, pairs, hspelled, hnodup, hfresh, rfl⟩
      obtain ⟨⟨k, v⟩, pairs, rfl, hpair, hrest⟩ := List.map_eq_cons_iff.1 hspelled.symm
      obtain ⟨hkey, rfl⟩ := Prod.mk.inj hpair
      obtain ⟨hnew, hfresh⟩ := List.forall_mem_cons.1 hfresh
      obtain ⟨hapart, hnodup⟩ := List.nodup_cons.1 hnodup
      refine ⟨k, ⟨hkey.symm, hnew⟩, ih.2 ⟨hending, pairs, hrest.symm, hnodup, fun m hm hmem => ?_, by simp⟩⟩
      rcases List.mem_cons.1 hmem with heq | hgiven
      · exact hapart (List.mem_map.2 ⟨m, hm, heq⟩)
      · exact hfresh m hm hgiven

/-! ## Texts -/

theorem readOutline_mapping {nodes : List Yaml.Node}
    (h : ∀ m ∈ nodes, m.anchor = none ∧ ∀ name, m.content ≠ .alias name) :
    readOutline ⟨⟨.mapping, none, start⟩ :: nodes, ending⟩ = readMembers start ending [] (met nodes) := by
  have hresolved : (Yaml.Outline.mk (⟨.mapping, none, start⟩ :: nodes) ending).resolved =
      (⟨⟨.mapping, none, start⟩, false⟩ :: met nodes, ending) :=
    Yaml.Outline.resolved_plain (List.forall_mem_cons.2 ⟨⟨rfl, nofun⟩, h⟩)
  rw [readOutline, hresolved]

theorem readOutline_scalar {text : String} (h : text ≠ "") (mark : Yaml.Mark) (fault : Yaml.Fault) :
    ∃ fault', readOutline ⟨[⟨.scalar text true none, none, mark⟩], .fault fault⟩ = .error fault' := by
  have hresolved : (Yaml.Outline.mk [⟨.scalar text true none, none, mark⟩] (.fault fault)).resolved =
      ([⟨⟨.scalar text true none, none, mark⟩, false⟩], .fault fault) :=
    Yaml.Outline.resolved_plain (List.forall_mem_singleton.2 ⟨rfl, nofun⟩)
  rw [readOutline, hresolved]
  simp [h]

/-- Lines are read when all keys are short. -/
theorem readOutline_lines (l : Yaml.Line) (ls : List Yaml.Line) (ended : Bool) :
    readOutline (Yaml.Outline.document (Yaml.scan (l.spelled (Yaml.Line.following ended ls)))) = .ok result ↔
      (∀ m ∈ l :: ls, m.isShort) ∧ readMembers ⟨0, 0⟩ (.complete false) [] (met (Yaml.Line.allNodes 0 (l :: ls))) =
        .ok result := by
  by_cases hl : l.isShort
  · cases hfind : ls.find? (!·.isShort) with
    | none =>
      have hshort : ∀ m ∈ l :: ls, m.isShort :=
        List.forall_mem_cons.2 ⟨hl, by simpa using List.find?_eq_none.1 hfind⟩
      rw [Yaml.Outline.document_lines hshort, readOutline_mapping Yaml.Line.plain_allNodes]
      exact (and_iff_right hshort).symm
    | some bad =>
      -- the lines above the long key are read, but what ends them is a fault
      obtain ⟨hlong, good, more, rfl, hgood⟩ := List.find?_eq_some_iff_append.1 hfind
      have hshort : ∀ m ∈ l :: good, m.isShort := List.forall_mem_cons.2 ⟨hl, by simpa using hgood⟩
      obtain ⟨fault, hdocument⟩ := Yaml.Outline.document_lines_cut hshort (by simpa using hlong) more ended
      rw [hdocument, readOutline_mapping Yaml.Line.plain_allNodes, readMembers_lines]
      simp only [reduceCtorEq, false_and, false_iff, not_and]
      intro hall
      simp [hall bad (by simp)] at hlong
  · obtain ⟨fault, hdocument⟩ := Yaml.Outline.document_lines_scalar (Bool.not_eq_true _ ▸ hl) ended ls
    have hne : l.key ≠ "" := fun hempty => by
      have hpos := l.key_length_pos
      rw [hempty] at hpos
      exact absurd hpos (by decide)
    obtain ⟨fault', hread⟩ := readOutline_scalar hne ⟨0, 0⟩ fault
    rw [hdocument, hread]
    simp [hl]

theorem isShort_of_key {l : Yaml.Line} (h : l.key = k.name) : l.isShort := by
  rw [Yaml.Line.isShort, h]
  cases k <;> decide

theorem isShort_of_named (h : ls.map (fun l => (l.key, l.value)) = named pairs) : ∀ l ∈ ls, l.isShort := by
  intro l hl
  have hmem : (l.key, l.value) ∈ named pairs := h ▸ List.mem_map_of_mem hl
  obtain ⟨m, -, heq⟩ := List.mem_map.1 hmem
  exact isShort_of_key (Prod.mk.inj heq).1.symm

theorem isBlank_written (l : Line) (ls : List Line) (ended : Bool) :
    Text.isBlank (Line.written (l :: ls) ended).toList = false := by
  obtain ⟨y, ys, hkey, hy, -⟩ := l.yaml.named
  have hbounds := Yaml.name_bounds (.inl hy)
  have hspace : Text.isSpace y = false := by
    simp [Text.isSpace]
    omega
  rw [Line.toList_written, Yaml.Line.spelled, hkey, Text.isBlank, List.cons_append, List.all_cons, hspace,
    Bool.false_and]

/-- Lines are read when their keys are different ones of the six. -/
theorem members_written {lines : List Line} (ended : Bool) : members (Line.written lines ended) = .ok result ↔
    ∃ pairs, lines.map (fun l => (l.key, l.value)) = named pairs ∧ (pairs.map Prod.fst).Nodup ∧
      result = pairs.reverse := by
  cases lines with
  | nil =>
    have hblank : members (Line.written [] ended) = .ok [] := by cases ended <;> rfl
    rw [hblank, Except.ok.injEq]
    constructor
    · rintro rfl
      exact ⟨[], rfl, List.nodup_nil, rfl⟩
    · rintro ⟨pairs, hnamed, -, rfl⟩
      simpa [named] using hnamed
  | cons l ls =>
    have hyaml : (l.yaml :: ls.map Line.yaml).map (fun l => (l.key, l.value)) =
        (l :: ls).map fun l => (l.key, l.value) := by
      simp [Line.yaml]
    rw [members, isBlank_written, Line.toList_written]
    simp only [Bool.false_eq_true, if_false, readOutline_lines, readMembers_lines, hyaml, List.map_nil, List.append_nil]
    constructor
    · rintro ⟨-, -, pairs, hnamed, hnodup, -, hresult⟩
      exact ⟨pairs, hnamed, hnodup, hresult⟩
    · rintro ⟨pairs, hnamed, hnodup, hresult⟩
      exact ⟨isShort_of_named (hyaml.trans hnamed), trivial, pairs, hnamed, hnodup, by simp, hresult⟩

/-! ## Overriding -/

/-- The standard profile with what the lines say, and nothing else, replaced. -/
structure Overrides (lines : List Line) (p : Profile) : Prop where
  replaced : ∀ l ∈ lines, ∀ k : Key, l.key = k.name → p.get k = l.value
  kept : ∀ k : Key, (∀ l ∈ lines, l.key ≠ k.name) → p.get k = standard.get k

theorem Overrides.unique {lines : List Line} {p q : Profile} (hp : Overrides lines p) (hq : Overrides lines q) :
    p = q := by
  refine ext_get fun k => ?_
  by_cases h : ∃ l ∈ lines, l.key = k.name
  · obtain ⟨l, hl, hkey⟩ := h
    rw [hp.replaced l hl k hkey, hq.replaced l hl k hkey]
  · have hnone : ∀ l ∈ lines, l.key ≠ k.name := fun l hl hkey => h ⟨l, hl, hkey⟩
    rw [hp.kept k hnone, hq.kept k hnone]

theorem Overrides.perm {lines others : List Line} {p : Profile} (h : Overrides lines p) (hperm : others.Perm lines) :
    Overrides others p :=
  ⟨fun l hl => h.replaced l (hperm.mem_iff.1 hl), fun k hk => h.kept k fun l hl => hk l (hperm.mem_iff.2 hl)⟩

theorem exists_named {lines : List Line} (hknown : ∀ l ∈ lines, ∃ k : Key, l.key = k.name) :
    ∃ pairs, lines.map (fun l => (l.key, l.value)) = named pairs := by
  induction lines with
  | nil => exact ⟨[], rfl⟩
  | cons l ls ih =>
    obtain ⟨⟨k, hk⟩, hls⟩ := List.forall_mem_cons.1 hknown
    obtain ⟨pairs, hnamed⟩ := ih hls
    exact ⟨(k, l.value) :: pairs, by rw [List.map_cons, hnamed, hk]; rfl⟩

theorem map_key_of_named {lines : List Line} (hnamed : lines.map (fun l => (l.key, l.value)) = named pairs) :
    lines.map Line.key = (pairs.map Prod.fst).map Key.name := by
  have hkeys := congrArg (List.map Prod.fst) hnamed
  simpa [named, Function.comp_def] using hkeys

theorem overrides_assemble {lines : List Line} (hnamed : lines.map (fun l => (l.key, l.value)) = named pairs)
    (hnodup : (pairs.map Prod.fst).Nodup) : Overrides lines (assemble pairs.reverse) where
  replaced := by
    intro l hl k hkey
    have hmem : (l.key, l.value) ∈ named pairs := hnamed ▸ List.mem_map_of_mem hl
    obtain ⟨⟨k', v⟩, hpair, heq⟩ := List.mem_map.1 hmem
    obtain ⟨hname, rfl⟩ := Prod.mk.inj heq
    obtain rfl : k' = k := Key.name_injective (hname.trans hkey)
    exact get_assemble_of_mem (by rw [List.map_reverse]; exact List.nodup_reverse.2 hnodup) (List.mem_reverse.2 hpair)
  kept := by
    intro k hk
    refine get_assemble_of_not_mem fun hmem => ?_
    rw [List.map_reverse, List.mem_reverse] at hmem
    have hname : k.name ∈ lines.map Line.key := map_key_of_named hnamed ▸ List.mem_map_of_mem hmem
    obtain ⟨l, hl, hkey⟩ := List.mem_map.1 hname
    exact hk l hl hkey

theorem exists_pairs {lines : List Line} (hknown : ∀ l ∈ lines, ∃ k : Key, l.key = k.name)
    (hnodup : (lines.map Line.key).Nodup) :
    ∃ pairs, lines.map (fun l => (l.key, l.value)) = named pairs ∧ (pairs.map Prod.fst).Nodup := by
  obtain ⟨pairs, hnamed⟩ := exists_named hknown
  rw [map_key_of_named hnamed, List.nodup_map_iff Key.name_injective] at hnodup
  exact ⟨pairs, hnamed, hnodup⟩

theorem exists_overrides {lines : List Line} (hknown : ∀ l ∈ lines, ∃ k : Key, l.key = k.name)
    (hnodup : (lines.map Line.key).Nodup) : ∃ p, Overrides lines p := by
  obtain ⟨pairs, hnamed, hdistinct⟩ := exists_pairs hknown hnodup
  exact ⟨_, overrides_assemble hnamed hdistinct⟩

theorem read_written {lines : List Line} (ended : Bool) {p : Profile}
    (hknown : ∀ l ∈ lines, ∃ k : Key, l.key = k.name) (hnodup : (lines.map Line.key).Nodup) (hp : Overrides lines p) :
    read (Line.written lines ended) = match p.flaw? with
      | none => .ok p
      | some flaw => .error (.flawed flaw) := by
  obtain ⟨pairs, hnamed, hdistinct⟩ := exists_pairs hknown hnodup
  have hmembers := (members_written ended).2 ⟨pairs, hnamed, hdistinct, rfl⟩
  obtain rfl := hp.unique (overrides_assemble hnamed hdistinct)
  rw [read_eq, hmembers]
  simp only [bind, Except.bind]
  cases (assemble pairs.reverse).flaw? <;> rfl

theorem keys_of_read {lines : List Line} {ended : Bool} {p : Profile} (h : read (Line.written lines ended) = .ok p) :
    (∀ l ∈ lines, ∃ k : Key, l.key = k.name) ∧ (lines.map Line.key).Nodup := by
  obtain ⟨given, hmembers, -, -⟩ := read_eq_ok.1 h
  obtain ⟨pairs, hnamed, hnodup, -⟩ := (members_written ended).1 hmembers
  have hkeys := map_key_of_named hnamed
  refine ⟨fun l hl => ?_, by rw [hkeys]; exact hnodup.map Key.name_injective⟩
  have hmem : l.key ∈ (pairs.map Prod.fst).map Key.name := hkeys ▸ List.mem_map_of_mem hl
  obtain ⟨k, -, hk⟩ := List.mem_map.1 hmem
  exact ⟨k, hk.symm⟩

end Profile

open Profile

theorem readProfile_eq_ok {origin text : String} {p : Profile} :
    readProfile origin text = .ok p ↔ Profile.read text = .ok p := mapError_eq_ok

theorem readProfile_eq_error {origin text : String} {error : SchemaError} :
    readProfile origin text = .error error ↔
      ∃ fault, Profile.read text = .error fault ∧ error = .profile origin (.malformed fault) := by
  rw [readProfile]
  cases Profile.read text <;> simp [eq_comm]

/-- Lines with different keys of the six are the standard profile with these replaced, in whatever order they stand, if
that is sound, and an error with its flaw otherwise. Other lines are an error. What is read is fit to compile under. -/
theorem profile_of_lines (origin : String) (lines : List Line) :
    ((∀ l ∈ lines, ∃ k : Key, l.key = k.name) → (lines.map Line.key).Nodup →
      ∃ p, (∀ q, Overrides lines q ↔ q = p) ∧ ∀ others ended, others.Perm lines →
        match p.flaw? with
        | none => readProfile origin (Line.written others ended) = .ok p
        | some flaw => ∃ error, readProfile origin (Line.written others ended) = .error (.profile origin error) ∧
            error.message = flaw.message) ∧
    ((∃ l ∈ lines, ∀ k : Key, l.key ≠ k.name) ∨ ¬ (lines.map Line.key).Nodup → ∀ ended,
      ∃ error, readProfile origin (Line.written lines ended) = .error (.profile origin error)) ∧
    ∀ text p, readProfile origin text = .ok p → p.flaw? = none ∧
      ∀ value, compileUnder p value = (compile p value).mapError .compile := by
  refine ⟨?_, ?_, ?_⟩
  · intro hknown hnodup
    obtain ⟨p, hp⟩ := exists_overrides hknown hnodup
    refine ⟨p, fun q => ⟨fun hq => hq.unique hp, fun hq => hq ▸ hp⟩, fun others ended hperm => ?_⟩
    have hread := read_written ended (fun l hl => hknown l (hperm.mem_iff.1 hl))
      ((hperm.map Line.key).nodup_iff.2 hnodup) (hp.perm hperm)
    cases hflaw : p.flaw? with
    | none =>
      rw [hflaw] at hread
      exact readProfile_eq_ok.2 hread
    | some flaw =>
      rw [hflaw] at hread
      exact ⟨_, readProfile_eq_error.2 ⟨_, hread, rfl⟩, rfl⟩
  · intro hbad ended
    cases hread : Profile.read (Line.written lines ended) with
    | error fault => exact ⟨_, readProfile_eq_error.2 ⟨_, hread, rfl⟩⟩
    | ok p =>
      obtain ⟨hknown, hnodup⟩ := keys_of_read hread
      rcases hbad with ⟨l, hl, hunknown⟩ | hrepeated
      · obtain ⟨k, hk⟩ := hknown l hl
        exact absurd hk (hunknown k)
      · exact absurd hnodup hrepeated
  · intro text p hread
    obtain ⟨given, -, hsound, rfl⟩ := read_eq_ok.1 (readProfile_eq_ok.1 hread)
    refine ⟨hsound, fun value => ?_⟩
    rw [compileUnder, hsound]

/-- A directive clashes with one that is left as it is. -/
example : readProfile "codec.yaml" "raw_encoding: \"zcbor\"\n" =
    .error (.profile "codec.yaml" (.malformed (.flawed (.sharedDirective "zcbor")))) := by
  rfl

def prefixLines : List Line := [
  ⟨Key.encodeEntryPrefix.name, "enc_", lowerIdentifier_name _, by simp⟩,
  ⟨Key.decodeEntryPrefix.name, "dec_", lowerIdentifier_name _, by simp⟩]

theorem profile_of_lines_prefixes : (∀ l ∈ prefixLines, ∃ k : Key, l.key = k.name) ∧
    (prefixLines.map Line.key).Nodup ∧ readProfile "codec.yaml" (Line.written prefixLines true) =
      .ok { Profile.standard with decodeEntryPrefix := "dec_", encodeEntryPrefix := "enc_" } := by
  have hknown : ∀ l ∈ prefixLines, ∃ k : Key, l.key = k.name := by
    simp only [prefixLines, List.forall_mem_cons]
    exact ⟨⟨.encodeEntryPrefix, rfl⟩, ⟨.decodeEntryPrefix, rfl⟩, nofun⟩
  have hnodup : (prefixLines.map Line.key).Nodup := by decide
  have hoverrides : Overrides prefixLines
      { Profile.standard with decodeEntryPrefix := "dec_", encodeEntryPrefix := "enc_" } := by
    refine ⟨?_, fun k => ?_⟩
    · simp only [prefixLines, List.forall_mem_cons]
      refine ⟨fun k => ?_, fun k => ?_, nofun⟩ <;> cases k <;> decide
    · simp only [prefixLines, List.forall_mem_cons]
      cases k <;> decide
  obtain ⟨p, hp, hread⟩ := (profile_of_lines "codec.yaml" prefixLines).1 hknown hnodup
  obtain rfl := (hp _).1 hoverrides
  exact ⟨hknown, hnodup, hread prefixLines true (List.Perm.refl _)⟩

end ServiceSchema
