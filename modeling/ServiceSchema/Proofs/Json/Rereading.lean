import Mathlib.Data.List.Basic
import ServiceSchema.Proofs.Json.PrintedDouble
import ServiceSchema.Proofs.Json.RoundTrip

/-! # Printed documents read again
The text of a document is read as the document with each number replaced by what its own numeral is read as, if all
numerals are in range. So the reader gives a document back exactly when it gives back each of its numbers. -/
namespace ServiceSchema.Json

/-! ## Numbers -/

def Number.lexeme (n : Number) : Lexeme := (lexemes (Printer.number n)).headD .foreign

theorem lexeme_of_readsBack {n : Number} (h : n.ReadsBack) : n.lexeme = .number n := by
  have hn := h [] trivial
  rw [List.append_nil] at hn
  rw [Number.lexeme, hn]
  rfl

theorem lexeme_double (x : Double) : (∃ m, (Number.double x).lexeme = .number m ∧
      ∀ rest, Delimits rest → lexemes (x.print ++ rest) = .number m :: lexemes rest) ∨
    (∃ f, (Number.double x).lexeme = .broken f ∧
      ∀ rest, Delimits rest → ∃ g, lexemes (x.print ++ rest) = [.broken g]) := by
  obtain ⟨n, -, -, -, -, -, hlexemes⟩ := x.exists_lexemes
  have hnil := hlexemes [] trivial
  rw [List.append_nil] at hnil
  cases hvalue : n.value with
  | ok m =>
    rw [hvalue] at hnil hlexemes
    refine .inl ⟨m, ?_, hlexemes⟩
    rw [Number.lexeme, Printer.number, hnil]
    rfl
  | error e =>
    rw [hvalue] at hnil hlexemes
    obtain ⟨f, hf⟩ := hnil
    refine .inr ⟨f, ?_, hlexemes⟩
    rw [Number.lexeme, Printer.number, hf]
    rfl

theorem lexeme_cases (n : Number) : (∃ m, n.lexeme = .number m) ∨ ∃ f, n.lexeme = .broken f := by
  cases n with
  | integer n h => exact .inl ⟨_, lexeme_of_readsBack (readsBack_integer n h)⟩
  | double x =>
    rcases lexeme_double x with ⟨m, hm, -⟩ | ⟨f, hf, -⟩
    · exact .inl ⟨m, hm⟩
    · exact .inr ⟨f, hf⟩

/-- Every number is spelled with its lexeme, wherever no numeral goes on. -/
theorem spells_lexeme (n : Number) : Spells (Printer.number n) [n.lexeme] := by
  cases n with
  | integer n h =>
    have hback := readsBack_integer n h
    rw [lexeme_of_readsBack hback]
    exact spells_of_lexemes hback
  | double x =>
    rcases lexeme_double x with ⟨m, hm, hlexemes⟩ | ⟨f, hf, hlexemes⟩
    · rw [hm]
      exact spells_of_lexemes hlexemes
    · intro rest hrest
      obtain ⟨g, hg⟩ := hlexemes rest hrest
      rw [hf, Printer.number, hg]
      rfl

theorem readsBack_iff_lexeme {n : Number} : n.ReadsBack ↔ n.lexeme = .number n := by
  refine ⟨lexeme_of_readsBack, fun h => ?_⟩
  cases n with
  | integer n hrange => exact readsBack_integer n hrange
  | double x =>
    rcases lexeme_double x with ⟨m, hm, hlexemes⟩ | ⟨f, hf, -⟩
    · cases hm.symm.trans h
      exact hlexemes
    · cases hf.symm.trans h

/-- A number is read back within a document exactly when it is read back alone. -/
theorem readsBack_iff_read {n : Number} : n.ReadsBack ↔ read (Value.number n).compact = .ok (.number n) := by
  have hread := toOption_readChars_of_spells (spells_lexeme n)
  have hstart : read (Value.number n).compact = readChars (Printer.number n) := by
    rw [read, Value.compact, String.toList_ofList, Printer.compact]
  rw [readsBack_iff_lexeme, hstart]
  constructor
  · intro h
    rw [h] at hread
    exact eq_ok_of_toOption hread
  · intro h
    rw [h] at hread
    rcases lexeme_cases n with ⟨m, hm⟩ | ⟨f, hf⟩
    · rw [hm] at hread ⊢
      cases hread
      rfl
    · rw [hf, Reader.reads_broken _ rfl] at hread
      cases hread

/-! ## Values -/

namespace Value

def mapNumbers (f : Number → Number) : Value → Value
  | .number n => .number (f n)
  | .array vs => .array (items f vs)
  | .object ms => .object (members f ms)
  | v => v
where
  items (f : Number → Number) : List Value → List Value
  | [] => []
  | v :: vs => mapNumbers f v :: items f vs
  members (f : Number → Number) : List (String × Value) → List (String × Value)
  | [] => []
  | (k, v) :: ms => (k, mapNumbers f v) :: members f ms

theorem mapNumbers_items (f : Number → Number) (vs : List Value) : mapNumbers.items f vs = vs.map (mapNumbers f) := by
  induction vs with
  | nil => rfl
  | cons v vs ih => rw [mapNumbers.items, ih, List.map_cons]

theorem mapNumbers_members (f : Number → Number) (ms : Members) :
    mapNumbers.members f ms = ms.map fun m => (m.1, mapNumbers f m.2) := by
  induction ms with
  | nil => rfl
  | cons m ms ih => rw [mapNumbers.members, ih, List.map_cons]

/-- Replacing numbers replaces their lexemes. -/
theorem lexemes_mapNumbers (f : Number → Number) (v : Value) :
    (v.mapNumbers f).lexemes = v.lexemes.map (respell fun n => .number (f n)) := by
  induction v with
  | null | bool | number | string => rfl
  | array items ih =>
    cases items with
    | nil => rfl
    | cons v vs =>
      have hvs : ∀ w ∈ vs, (w.mapNumbers f).lexemes = w.lexemes.map (respell fun n => .number (f n)) :=
        fun w hw => ih w (List.mem_cons_of_mem v hw)
      rw [mapNumbers, mapNumbers_items, List.map_cons, lexemes_array_cons, lexemes_array_cons,
        map_respell_content _ _ _ _ _ rfl rfl, ih v List.mem_cons_self, List.flatMap_map]
      congr 3
      exact List.flatMap_congr fun w hw => congrArg _ (hvs w hw)
  | object members ih =>
    cases members with
    | nil => rfl
    | cons m ms =>
      have hmember : ∀ n ∈ m :: ms, memberLexemes (n.1, n.2.mapNumbers f)
          = (memberLexemes n).map (respell fun n => .number (f n)) := by
        intro n hn
        rw [memberLexemes, ih n hn]
        rfl
      rw [mapNumbers, mapNumbers_members, List.map_cons, lexemes_object_cons, lexemes_object_cons,
        map_respell_content _ _ _ _ _ rfl rfl, hmember m List.mem_cons_self, List.flatMap_map]
      congr 3
      exact List.flatMap_congr fun n hn => congrArg _ (hmember n (List.mem_cons_of_mem m hn))

theorem sorted_mapNumbers (f : Number → Number) {v : Value} (h : v.Sorted) : (v.mapNumbers f).Sorted := by
  induction v with
  | null | bool | number | string => trivial
  | array items ih =>
    rw [mapNumbers, mapNumbers_items, sorted_array, List.forall_mem_map]
    exact fun v hv => ih v hv (sorted_array.1 h v hv)
  | object members ih =>
    obtain ⟨hkeys, hmembers⟩ := sorted_object.1 h
    rw [mapNumbers, mapNumbers_members, sorted_object, List.forall_mem_map]
    exact ⟨List.pairwise_map.2 hkeys, fun m hm => ih m hm (hmembers m hm)⟩

theorem number_mem_lexemes {v : Value} {n : Number} : .number n ∈ v.lexemes ↔ .number n ∈ v.subvalues := by
  induction v with
  | null | bool | string | number => simp [subvalues, lexemes]
  | array items ih =>
    rw [mem_subvalues_array]
    cases items with
    | nil => simp [lexemes]
    | cons v vs =>
      have hvs : (∃ w ∈ vs, .number n ∈ w.lexemes) ↔ ∃ w ∈ vs, .number n ∈ w.subvalues :=
        exists_congr fun w => and_congr_right fun hw => ih w (List.mem_cons_of_mem v hw)
      rw [lexemes_array_cons]
      simp [ih v List.mem_cons_self, hvs]
  | object members ih =>
    rw [mem_subvalues_object]
    cases members with
    | nil => simp [lexemes]
    | cons m ms =>
      have hms : (∃ l ∈ ms, .number n ∈ l.2.lexemes) ↔ ∃ l ∈ ms, .number n ∈ l.2.subvalues :=
        exists_congr fun l => and_congr_right fun hl => ih l (List.mem_cons_of_mem m hl)
      have hmember (l : String × Value) : .number n ∈ memberLexemes l ↔ .number n ∈ l.2.lexemes := by
        simp [memberLexemes]
      rw [lexemes_object_cons]
      simp only [List.mem_cons, List.mem_append, List.mem_flatMap, reduceCtorEq, false_or, or_false, hmember,
        List.not_mem_nil, ih m List.mem_cons_self, hms, exists_eq_or_imp]

/-- A value is left as it is only by what leaves its numbers as they are. -/
theorem fixed_of_mapNumbers {f : Number → Number} {v : Value} (h : v.mapNumbers f = v) :
    ∀ n, .number n ∈ v.subvalues → f n = n := by
  intro n hn
  induction v with
  | null | bool | string => simp [subvalues] at hn
  | number m =>
    obtain rfl : n = m := by simpa [subvalues] using hn
    exact Value.number.inj h
  | array items ih =>
    obtain ⟨v, hv, hn⟩ := (mem_subvalues_array.1 hn).resolve_left (by simp)
    rw [mapNumbers, mapNumbers_items] at h
    exact ih v hv (List.map_inj_left.1 ((Value.array.inj h).trans (List.map_id _).symm) v hv) hn
  | object members ih =>
    obtain ⟨m, hm, hn⟩ := (mem_subvalues_object.1 hn).resolve_left (by simp)
    rw [mapNumbers, mapNumbers_members] at h
    have hfixed := List.map_inj_left.1 ((Value.object.inj h).trans (List.map_id _).symm) m hm
    exact ih m hm (congrArg Prod.snd hfixed) hn

end Value

theorem reads_lexemes {v : Value} (hs : v.Sorted) (hdepth : v.depth ≤ Reader.maxDepth) :
    Reader.start.reads v.lexemes = some v := by
  rw [reads_start, if_pos hdepth, Value.normalize_of_sorted hs]

/-- If the reader gives the document, no lexeme was broken and no number is another one. -/
theorem numbersReadBack_of_reads {v : Value} (hs : v.Sorted)
    (h : Reader.start.reads (v.lexemes.map (respell Number.lexeme)) = some v) : v.NumbersReadBack := by
  have hnumber (n : Number) : ∃ m, .number n ∈ v.lexemes → n.lexeme = .number m := by
    rcases lexeme_cases n with ⟨m, hm⟩ | ⟨g, hg⟩
    · exact ⟨m, fun _ => hm⟩
    · refine ⟨n, fun hn => ?_⟩
      have hmem : .broken g ∈ v.lexemes.map (respell Number.lexeme) := List.mem_map.2 ⟨_, hn, hg⟩
      rw [Reader.reads_of_mem_broken hmem rfl] at h
      cases h
  -- what each number is read as
  obtain ⟨f, hlexeme⟩ := Classical.axiomOfChoice hnumber
  have hmap : v.lexemes.map (respell Number.lexeme) = (v.mapNumbers f).lexemes := by
    rw [Value.lexemes_mapNumbers]
    refine List.map_congr_left fun l hl => ?_
    cases l with
    | number n => exact hlexeme n hl
    | _ => rfl
  have hself : v.mapNumbers f = v := by
    rw [hmap, reads_start, Value.normalize_of_sorted (Value.sorted_mapNumbers f hs)] at h
    exact Option.some.inj (Option.ite_none_right_eq_some.1 h).2
  intro n hn
  rw [readsBack_iff_lexeme, hlexeme n (Value.number_mem_lexemes.2 hn), Value.fixed_of_mapNumbers hself n hn]

/-- A document is read back, from either layout, exactly when all its numbers are. -/
theorem toOption_readChars_eq_self {v : Value} {cs : List Char} (hs : v.Sorted) (hdepth : v.depth ≤ Reader.maxDepth)
    (h : Spells cs (v.lexemes.map (respell Number.lexeme))) :
    (readChars cs).toOption = some v ↔ v.NumbersReadBack := by
  rw [toOption_readChars_of_spells h]
  refine ⟨numbersReadBack_of_reads hs, fun hback => ?_⟩
  have hmap : v.lexemes.map (respell Number.lexeme) = v.lexemes.map id := by
    refine List.map_congr_left fun l hl => ?_
    cases l with
    | number n => exact lexeme_of_readsBack (hback n (Value.number_mem_lexemes.1 hl))
    | _ => rfl
  rw [hmap, List.map_id, reads_lexemes hs hdepth]

/-- The same for the text of a schema. -/
theorem readSchema_eq_self {v : Value} {cs : List Char} (hs : v.Sorted) (hdepth : v.depth ≤ Reader.maxDepth)
    (h : Spells cs (v.lexemes.map (respell Number.lexeme))) (origin : String) :
    readSchema origin (String.ofList cs) = .ok v ↔ v.NumbersReadBack := by
  rw [← toOption_readChars_eq_self hs hdepth h, readSchema, mapError_eq_ok, read, String.toList_ofList]
  exact ⟨fun h => congrArg Except.toOption h, eq_ok_of_toOption⟩

theorem spells_pretty_lexemes (v : Value) (level : Nat) :
    Spells (Printer.pretty level v) (v.lexemes.map (respell Number.lexeme)) :=
  spells_pretty_respelled (fun n _ => spells_lexeme n) level

theorem spells_compact_lexemes (v : Value) : Spells (Printer.compact v) (v.lexemes.map (respell Number.lexeme)) :=
  spells_compact_respelled fun n _ => spells_lexeme n

end ServiceSchema.Json
