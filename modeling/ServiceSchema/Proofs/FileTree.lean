import ServiceSchema.FileSystem
import ServiceSchema.Proofs.FileTree.Path
import ServiceSchema.Proofs.Result

/-! # What happens to a file tree
A path opens a file at one place, and all that reading and writing do is at that place. While the directories of a
tree are kept, a path opens the same place, whatever else is written. -/
namespace ServiceSchema.FileTree

variable {t t' t'' : FileTree} {path dir name : String} {content : List UInt8} {p : Path} {q d place : Place}

/-! ## Files that paths open -/

/-- The place of the file that a path opens. The file need not be there, only the directory that it is in. -/
def opened? (t : FileTree) (path : String) : Option Place :=
  match Path.read path with
  | .error _ => none
  | .ok p =>
    match t.locate p with
    | .ok (.entry place name) =>
      if p.endsWithSlash ∨ Path.nameByteLimit < name.utf8ByteSize then none else some (name :: place)
    | _ => none

/-- The directory that names are joined to; the empty path stands for the working directory. -/
def directory? (t : FileTree) (dir : String) : Option Place :=
  if dir = "" then some t.workingDirectory
  else
    match Path.read dir with
    | .error _ => none
    | .ok p => (t.walk (t.start p) p.steps).toOption

/-- The file that a path opens is in a directory, at any depth. -/
def LiesIn (t : FileTree) (path dir : String) : Prop :=
  ∃ q ∈ t.opened? path, ∃ d ∈ t.directory? dir, d <:+ q

instance (t : FileTree) (path dir : String) : Decidable (t.LiesIn path dir) :=
  inferInstanceAs (Decidable (∃ q ∈ t.opened? path, ∃ d ∈ t.directory? dir, d <:+ q))

theorem opened?_eq_some : t.opened? path = some q ↔ ∃ p place name, Path.read path = .ok p ∧
    t.locate p = .ok (.entry place name) ∧ p.endsWithSlash = false ∧ name.utf8ByteSize ≤ Path.nameByteLimit ∧
    q = name :: place := by
  rw [opened?]
  constructor
  · intro h
    split at h
    · cases h
    · next p hread =>
      split at h
      · next place name hlocate =>
        split at h
        · cases h
        · next hshort =>
          cases h
          rw [not_or, Bool.not_eq_true] at hshort
          exact ⟨p, place, name, hread, hlocate, hshort.1, Nat.le_of_not_lt hshort.2, rfl⟩
      · cases h
  · rintro ⟨p, place, name, hread, hlocate, hslash, hsize, rfl⟩
    have hshort : ¬ (p.endsWithSlash ∨ Path.nameByteLimit < name.utf8ByteSize) :=
      not_or.2 ⟨Bool.not_eq_true _ ▸ hslash, Nat.not_lt.2 hsize⟩
    rw [hread]
    simp only [hlocate, if_neg hshort]

theorem ne_nil_of_opened? (h : t.opened? path = some q) : q ≠ [] := by
  obtain ⟨p, place, name, -, -, -, -, rfl⟩ := opened?_eq_some.1 h
  exact List.cons_ne_nil _ _

theorem directory?_eq_some (hdir : dir ≠ "") :
    t.directory? dir = some d ↔ ∃ p, Path.read dir = .ok p ∧ t.walk (t.start p) p.steps = .ok d := by
  rw [directory?, if_neg hdir]
  cases Path.read dir with
  | error fault => simp
  | ok p => cases hwalk : t.walk (t.start p) p.steps <;> simp [Except.toOption, hwalk]

theorem read_eq_ok : t.read path = .ok content ↔ ∃ q, t.opened? path = some q ∧ t.find? q = some (.file content) := by
  rw [read, opened?]
  cases Path.read path with
  | error fault => simp
  | ok p =>
    simp only [readAt]
    cases t.locate p with
    | error fault => simp
    | ok target =>
      cases target with
      | directory place => simp
      | entry place name =>
        by_cases hsize : Path.nameByteLimit < name.utf8ByteSize
        · simp [lookup, hsize]
        · simp only [lookup, hsize, if_false, or_false]
          cases hfind : t.find? (name :: place) with
          | none => simp [hfind]
          | some item => cases item <;> cases p.endsWithSlash <;> simp [hfind]

theorem write_eq_ok : t.write path content = (.ok (), t') ↔
    ∃ q, t.opened? path = some q ∧ t.find? q ≠ some .directory ∧ t' = t.put q (.file content) := by
  rw [write, opened?]
  cases Path.read path with
  | error fault => simp
  | ok p =>
    simp only [writeAt]
    cases t.locate p with
    | error fault => simp
    | ok target =>
      cases target with
      | directory place => simp
      | entry place name =>
        by_cases hsize : Path.nameByteLimit < name.utf8ByteSize
        · cases p.endsWithSlash <;> simp [lookup, hsize]
        · simp only [lookup, hsize, if_false, or_false]
          cases p.endsWithSlash with
          | true => simp
          | false =>
            cases hfind : t.find? (name :: place) with
            | none => simp [hfind, eq_comm]
            | some item => cases item <;> simp [hfind, eq_comm]

/-- What cannot be written changes nothing. -/
theorem eq_of_write_error {fault : FileFault} (h : t.write path content = (.error fault, t')) : t' = t := by
  rw [write] at h
  split at h
  · cases h
    rfl
  · split at h <;> cases h
    rfl

def written (t : FileTree) (path : String) (content : List UInt8) : Except FileFault FileTree :=
  match t.write path content with
  | (.ok (), t') => .ok t'
  | (.error fault, _) => .error fault

theorem write_eq_written (t : FileTree) (path : String) (content : List UInt8) :
    t.write path content = match t.written path content with
      | .ok t' => (.ok (), t')
      | .error fault => (.error fault, t) := by
  rw [written]
  cases hwrite : t.write path content with
  | mk result t' =>
    cases result with
    | ok => rfl
    | error fault => rw [eq_of_write_error hwrite]

theorem written_eq_ok : t.written path content = .ok t' ↔
    ∃ q, t.opened? path = some q ∧ t.find? q ≠ some .directory ∧ t' = t.put q (.file content) := by
  rw [← write_eq_ok, write_eq_written]
  cases t.written path content <;> simp

/-! ## Directories that are kept -/

/-- The directories are still there, and so is the working directory. -/
structure Keeps (t t' : FileTree) : Prop where
  workingDirectory : t'.workingDirectory = t.workingDirectory
  directory : ∀ {q}, t.find? q = some .directory → t'.find? q = some .directory

theorem Keeps.refl (t : FileTree) : Keeps t t := ⟨rfl, id⟩

theorem Keeps.trans (h : Keeps t t') (h' : Keeps t' t'') : Keeps t t'' :=
  ⟨h'.workingDirectory.trans h.workingDirectory, fun hq => h'.directory (h.directory hq)⟩

theorem find?_put (t : FileTree) (hplace : place ≠ []) (item : FileItem) (q : Place) :
    (t.put place item).find? q = if q = place then some item else t.find? q := by
  split
  · next h => rw [h, find?_put_self t hplace]
  · next h => rw [find?_put_of_ne t h]

/-- Nothing but a directory comes in the place of a directory. -/
theorem keeps_put {item : FileItem} (hplace : place ≠ []) (h : t.find? place = some .directory → item = .directory) :
    Keeps t (t.put place item) := by
  refine ⟨rfl, fun {q} hq => ?_⟩
  rw [find?_put t hplace]
  split
  · next hqp => rw [h (hqp ▸ hq)]
  · exact hq

theorem start_of_keeps (h : Keeps t t') (p : Path) : t'.start p = t.start p := by
  rw [start, start, h.workingDirectory]

theorem enter_name_eq_ok : t.enter place (.name name) = .ok q ↔
    name.utf8ByteSize ≤ Path.nameByteLimit ∧ t.find? (name :: place) = some .directory ∧ q = name :: place := by
  rw [enter, lookup]
  by_cases hsize : Path.nameByteLimit < name.utf8ByteSize
  · simp [hsize, Nat.not_le.2 hsize]
  · rw [if_neg hsize]
    cases t.find? (name :: place) with
    | none => simp
    | some item => cases item <;> simp [Nat.not_lt.1 hsize, eq_comm]

theorem walk_cons_eq_ok {step : PathStep} {steps : List PathStep} : t.walk place (step :: steps) = .ok q ↔
    ∃ next, t.enter place step = .ok next ∧ t.walk next steps = .ok q := by
  rw [walk]
  cases t.enter place step <;> simp

theorem enter_of_keeps (h : Keeps t t') {step : PathStep} (hstep : t.enter place step = .ok q) :
    t'.enter place step = .ok q := by
  cases step with
  | here => exact hstep
  | up => exact hstep
  | name s =>
    obtain ⟨hsize, hdirectory, hq⟩ := enter_name_eq_ok.1 hstep
    exact enter_name_eq_ok.2 ⟨hsize, h.directory hdirectory, hq⟩

/-- A walk that came to its end still does. -/
theorem walk_of_keeps (h : Keeps t t') {steps : List PathStep} (hs : t.walk place steps = .ok q) :
    t'.walk place steps = .ok q := by
  induction steps generalizing place with
  | nil => exact hs
  | cons step rest ih =>
    obtain ⟨next, hnext, hrest⟩ := walk_cons_eq_ok.1 hs
    exact walk_cons_eq_ok.2 ⟨next, enter_of_keeps h hnext, ih hrest⟩

/-- A name is located by walking to the directory that it is in. -/
theorem locate_eq_entry : t.locate p = .ok (.entry place name) ↔
    ∃ steps, p.steps = steps ++ [.name name] ∧ t.walk (t.start p) steps = .ok place := by
  rw [locate]
  rcases List.eq_nil_or_concat p.steps with hnil | ⟨steps, last, hsteps⟩
  · simp [hnil]
  · rw [List.concat_eq_append] at hsteps
    simp only [hsteps, List.getLast?_append, List.getLast?_singleton, Option.some_or, List.dropLast_concat,
      List.append_singleton_inj]
    constructor
    · intro h
      refine ⟨steps, ?_⟩
      cases hwalk : t.walk (t.start p) steps <;> rw [hwalk] at h <;> cases last <;> cases h
      exact ⟨⟨rfl, rfl⟩, rfl⟩
    · rintro ⟨_, ⟨rfl, rfl⟩, hwalk⟩
      rw [hwalk]

theorem locate_of_keeps (h : Keeps t t') (hlocate : t.locate p = .ok (.entry place name)) :
    t'.locate p = .ok (.entry place name) := by
  obtain ⟨steps, hsteps, hwalk⟩ := locate_eq_entry.1 hlocate
  refine locate_eq_entry.2 ⟨steps, hsteps, ?_⟩
  rw [start_of_keeps h]
  exact walk_of_keeps h hwalk

theorem opened?_of_keeps (h : Keeps t t') (hq : t.opened? path = some q) : t'.opened? path = some q := by
  obtain ⟨p, place, name, hread, hlocate, hrest⟩ := opened?_eq_some.1 hq
  exact opened?_eq_some.2 ⟨p, place, name, hread, locate_of_keeps h hlocate, hrest⟩

theorem directory?_of_keeps (h : Keeps t t') (hd : t.directory? dir = some d) : t'.directory? dir = some d := by
  by_cases hdir : dir = ""
  · rw [directory?, if_pos hdir] at hd ⊢
    rw [h.workingDirectory, hd]
  · obtain ⟨p, hread, hwalk⟩ := (directory?_eq_some hdir).1 hd
    refine (directory?_eq_some hdir).2 ⟨p, hread, ?_⟩
    rw [start_of_keeps h]
    exact walk_of_keeps h hwalk

/-! ## Joined names -/

theorem walk_append (t : FileTree) (place : Place) (xs ys : List PathStep) :
    t.walk place (xs ++ ys) = t.walk place xs >>= fun q => t.walk q ys := by
  induction xs generalizing place with
  | nil => rfl
  | cons x xs ih =>
    rw [List.cons_append, walk, walk]
    cases t.enter place x with
    | error fault => rfl
    | ok next => exact ih next

/-- Without steps up, a walk stays where it began. -/
theorem suffix_of_walk {steps : List PathStep} (hup : .up ∉ steps) (h : t.walk place steps = .ok q) : place <:+ q := by
  induction steps generalizing place with
  | nil =>
    cases h
    exact List.suffix_refl _
  | cons step rest ih =>
    obtain ⟨next, hnext, hwalk⟩ := walk_cons_eq_ok.1 h
    have hnextup := ih (fun hmem => hup (List.mem_cons_of_mem step hmem)) hwalk
    cases step with
    | here => exact Except.ok.inj hnext ▸ hnextup
    | up => exact absurd List.mem_cons_self hup
    | name s =>
      obtain ⟨-, -, rfl⟩ := enter_name_eq_ok.1 hnext
      exact (List.suffix_cons s place).trans hnextup

/-- A name that is joined to a directory is looked up from there. -/
theorem opened?_join (hname : Path.Relative name) (h : t.opened? (Path.join dir name) = some q) :
    ∃ d steps place last, t.directory? dir = some d ∧ (Path.ofChars name.toList).steps = steps ++ [.name last] ∧
      t.walk d steps = .ok place ∧ q = last :: place := by
  obtain ⟨p, place, last, hread, hlocate, -, -, rfl⟩ := opened?_eq_some.1 h
  obtain ⟨before, hbefore, hwalk⟩ := locate_eq_entry.1 hlocate
  obtain ⟨steps, final, hsteps⟩ := List.eq_nil_or_concat _ |>.resolve_left hname.steps_ne_nil
  rw [List.concat_eq_append] at hsteps
  by_cases hdir : dir = ""
  · subst hdir
    obtain ⟨habsolute, hjoined⟩ := Path.read_join_empty hname hread
    rw [hbefore, hsteps] at hjoined
    obtain ⟨rfl, hlast⟩ := List.append_singleton_inj.1 hjoined
    cases hlast
    rw [start, habsolute] at hwalk
    exact ⟨_, _, _, _, if_pos rfl, hsteps, hwalk, rfl⟩
  · obtain ⟨r, hr, habsolute, hjoined⟩ := Path.read_join hname hdir hread
    rw [hbefore, hsteps, ← List.append_assoc] at hjoined
    obtain ⟨rfl, hlast⟩ := List.append_singleton_inj.1 hjoined
    cases hlast
    rw [walk_append, bind_eq_ok, start, habsolute] at hwalk
    obtain ⟨d, hd, hplace⟩ := hwalk
    exact ⟨d, steps, place, last, (directory?_eq_some hdir).2 ⟨r, hr, hd⟩, hsteps, hplace, rfl⟩

theorem opened?_join_inward (hname : Path.Inward name) (h : t.opened? (Path.join dir name) = some q) :
    ∃ d, t.directory? dir = some d ∧ d <:+ q := by
  obtain ⟨d, steps, place, last, hdirectory, hsteps, hwalk, rfl⟩ := opened?_join hname.toRelative h
  have hup : .up ∉ steps := fun hmem => hname.noUp (by rw [hsteps]; exact List.mem_append_left _ hmem)
  exact ⟨d, hdirectory, (suffix_of_walk hup hwalk).trans (List.suffix_cons last place)⟩

/-- A plain name is that of a file right in the directory. -/
theorem opened?_join_plain (hname : Path.Plain name) (h : t.opened? (Path.join dir name) = some q) :
    ∃ d, t.directory? dir = some d ∧ q = name :: d := by
  obtain ⟨d, steps, place, last, hdirectory, hsteps, hwalk, rfl⟩ := opened?_join hname.inward.toRelative h
  rw [hname.steps] at hsteps
  obtain ⟨rfl, hlast⟩ := List.append_singleton_inj.1 (show [] ++ [.name name] = steps ++ [.name last] from hsteps)
  cases hlast
  cases hwalk
  exact ⟨d, hdirectory, rfl⟩

end ServiceSchema.FileTree
