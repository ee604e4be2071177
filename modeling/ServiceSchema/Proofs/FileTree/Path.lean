import ServiceSchema.FileTree.Path

/-! # Joined paths
A name that is joined to a directory is one more step after the steps of the directory, if it has no slash in it. -/
namespace ServiceSchema.Path

theorem split_ne_nil (cs : List Char) : split cs ≠ [] := by
  cases cs with
  | nil => simp [split]
  | cons c cs =>
    simp only [split]
    split
    · simp
    · split <;> simp

theorem split_of_no_slash {cs : List Char} (h : '/' ∉ cs) : split cs = [cs] := by
  induction cs with
  | nil => rfl
  | cons c cs ih =>
    have hc : c ≠ '/' := fun hc => h (hc ▸ List.mem_cons_self)
    have hcs : '/' ∉ cs := fun hcs => h (List.mem_cons_of_mem c hcs)
    simp [split, hc, ih hcs]

theorem split_append_slash (cs ds : List Char) : split (cs ++ '/' :: ds) = split cs ++ split ds := by
  induction cs with
  | nil => simp [split]
  | cons c cs ih =>
    by_cases hc : c = '/'
    · simp [split, hc, ih]
    · obtain ⟨s, rest, hs⟩ := List.exists_cons_of_ne_nil (split_ne_nil cs)
      simp [split, hc, ih, hs]

def ofChars (cs : List Char) : Path := ⟨cs.head? = some '/', (split cs).filterMap step?, cs.getLast? = some '/'⟩

theorem read_eq_ok {text : String} {p : Path} :
    Path.read text = .ok p ↔
      '\x00' ∉ text.toList ∧ text.toList ≠ [] ∧ text.utf8ByteSize < byteLimit ∧ p = ofChars text.toList := by
  rw [← Nat.not_le]
  by_cases hzero : '\x00' ∈ text.toList
  · simp [Path.read, hzero]
  · by_cases hnil : text.toList = []
    · simp [Path.read, hnil]
    · by_cases hsize : byteLimit ≤ text.utf8ByteSize
      · simp [Path.read, hzero, hnil, hsize]
      · simp [Path.read, hzero, hnil, hsize, ofChars, eq_comm]

/-- Longer than two dots, a text between slashes is a name. -/
theorem step?_of_length {cs : List Char} (h : 2 < cs.length) : step? cs = some (.name (String.ofList cs)) := by
  rw [step?] <;> rintro rfl <;> exact absurd h (by decide)

theorem step?_ne_none {cs : List Char} (h : cs ≠ []) : step? cs ≠ none := by
  rw [step?.eq_def]
  split
  · exact absurd rfl h
  all_goals simp

/-! ## Names that are joined -/

/-- A name that leads on from a directory: there is something to it, and it does not begin at the root. -/
structure Relative (name : String) : Prop where
  ne_nil : name.toList ≠ []
  head : name.toList.head? ≠ some '/'

/-- A name that leads on and never up. -/
structure Inward (name : String) : Prop extends Relative name where
  noUp : .up ∉ (ofChars name.toList).steps

structure Plain (name : String) : Prop where
  noSlash : '/' ∉ name.toList
  step : step? name.toList = some (.name name)

instance (name : String) : Decidable (Inward name) :=
  decidable_of_iff (name.toList ≠ [] ∧ name.toList.head? ≠ some '/' ∧ .up ∉ (ofChars name.toList).steps)
    ⟨fun ⟨hnil, hhead, hup⟩ => ⟨⟨hnil, hhead⟩, hup⟩, fun h => ⟨h.ne_nil, h.head, h.noUp⟩⟩

variable {dir name : String} {p : Path}

theorem Plain.steps (h : Plain name) : (ofChars name.toList).steps = [.name name] := by
  simp [ofChars, split_of_no_slash h.noSlash, h.step]

theorem Plain.inward (h : Plain name) : Inward name := by
  refine ⟨⟨fun hnil => ?_, fun hhead => h.noSlash (List.mem_of_head? hhead)⟩, by simp [h.steps]⟩
  have hstep := h.step
  rw [hnil] at hstep
  cases hstep

theorem Relative.steps_ne_nil (h : Relative name) : (ofChars name.toList).steps ≠ [] := by
  obtain ⟨c, cs, hchars⟩ := List.exists_cons_of_ne_nil h.ne_nil
  have hc : c ≠ '/' := fun hc => h.head (by rw [hchars, hc]; rfl)
  obtain ⟨s, rest, hsplit⟩ := List.exists_cons_of_ne_nil (split_ne_nil cs)
  obtain ⟨step, hstep⟩ := Option.ne_none_iff_exists'.1 (step?_ne_none (List.cons_ne_nil c s))
  simp [ofChars, hchars, split, hc, hsplit, hstep]

/-- A joined path is a slash with the directory before it and the name after it. -/
theorem exists_join (h : Relative name) (hdir : dir ≠ "") : ∃ cs, (join dir name).toList = cs ++ '/' :: name.toList ∧
    (ofChars cs).steps = (ofChars dir.toList).steps ∧ (cs ++ '/' :: name.toList).head? = dir.toList.head? := by
  by_cases hlast : dir.toList.getLast? = some '/'
  · obtain ⟨cs, hcs⟩ := List.getLast?_eq_some_iff.1 hlast
    refine ⟨cs, ?_, ?_, ?_⟩
    · simp [join, h.head, hdir, hcs]
    · rw [hcs, ofChars, ofChars, split_append_slash]
      simp [split, step?]
    · rw [hcs]
      cases cs <;> rfl
  · refine ⟨dir.toList, ?_, rfl, ?_⟩
    · simp [join, h.head, hdir, hlast]
    · cases hchars : dir.toList with
      | nil => exact absurd (String.toList_eq_nil_iff.1 hchars) hdir
      | cons c cs => rfl

theorem utf8ByteSize_le_join (h : Relative name) : dir.utf8ByteSize ≤ (join dir name).utf8ByteSize := by
  simp only [join, h.head, false_or]
  split
  · simp_all
  · split <;> simp only [String.utf8ByteSize_append] <;> omega

theorem mem_join_of_mem (h : Relative name) {c : Char} (hc : c ∈ dir.toList) : c ∈ (join dir name).toList := by
  simp only [join, h.head, false_or]
  split
  · simp_all
  · split <;> simp [hc]

/-- Whenever a joined path can be read, so can the directory, and the steps of the name follow its steps. -/
theorem read_join (h : Relative name) (hdir : dir ≠ "") (hp : Path.read (join dir name) = .ok p) :
    ∃ r, Path.read dir = .ok r ∧ p.isAbsolute = r.isAbsolute ∧ p.steps = r.steps ++ (ofChars name.toList).steps := by
  obtain ⟨hzero, -, hsize, rfl⟩ := read_eq_ok.1 hp
  obtain ⟨cs, hjoin, hsteps, hhead⟩ := exists_join h hdir
  refine ⟨ofChars dir.toList, read_eq_ok.2 ⟨?_, ?_, ?_, rfl⟩, ?_, ?_⟩
  · exact fun hmem => hzero (mem_join_of_mem h hmem)
  · exact fun hnil => hdir (String.toList_eq_nil_iff.1 hnil)
  · exact Nat.lt_of_le_of_lt (utf8ByteSize_le_join h) hsize
  · rw [hjoin, ofChars, ofChars, hhead]
  · rw [← hsteps, hjoin, ofChars, split_append_slash, List.filterMap_append]
    rfl

/-- Joined to the empty path, a name is left alone. -/
theorem read_join_empty (h : Relative name) (hp : Path.read (join "" name) = .ok p) :
    p.isAbsolute = false ∧ p.steps = (ofChars name.toList).steps := by
  have hjoin : join "" name = name := by simp [join]
  rw [hjoin] at hp
  obtain ⟨-, -, -, rfl⟩ := read_eq_ok.1 hp
  exact ⟨by simp [ofChars, h.head], rfl⟩

end ServiceSchema.Path
