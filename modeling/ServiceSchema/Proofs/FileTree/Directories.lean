import ServiceSchema.Proofs.FileTree

/-! # Making directories
Directories are made along a path, where nothing has been before. All that was there stays, also if not all of them
can be made. -/
namespace ServiceSchema.FileTree

variable {t t' t'' : FileTree} {p r : Path} {q d place : Place}

def LeadsThrough (t : FileTree) (p : Path) (q : Place) : Prop :=
  ∃ steps, steps <+: p.moves ∧ t.walk (t.start p) steps = .ok q

/-- A tree in which some directories have been made along a path, and nothing else. -/
structure Made (p : Path) (t t' : FileTree) : Prop where
  workingDirectory : t'.workingDirectory = t.workingDirectory
  found : ∀ q, t'.find? q = t.find? q ∨
    t.find? q = none ∧ t'.find? q = some .directory ∧ t'.LeadsThrough p q

theorem Made.refl (p : Path) (t : FileTree) : Made p t t := ⟨rfl, fun _ => .inl rfl⟩

/-- What was there is still there. -/
theorem Made.find? (h : Made p t t') {item : FileItem} (hq : t.find? q = some item) : t'.find? q = some item := by
  rcases h.found q with hsame | ⟨hnone, -⟩
  · rw [hsame, hq]
  · rw [hnone] at hq
    cases hq

theorem Made.keeps (h : Made p t t') : Keeps t t' := ⟨h.workingDirectory, h.find?⟩

theorem LeadsThrough.of_keeps (h : Keeps t t') (hq : t.LeadsThrough p q) : t'.LeadsThrough p q := by
  obtain ⟨steps, hprefix, hwalk⟩ := hq
  refine ⟨steps, hprefix, ?_⟩
  rw [start_of_keeps h]
  exact walk_of_keeps h hwalk

theorem Made.trans (h : Made p t t') (h' : Made p t' t'') : Made p t t'' := by
  refine ⟨h'.workingDirectory.trans h.workingDirectory, fun q => ?_⟩
  rcases h.found q with hsame | ⟨hnone, hmade, hleads⟩
  · rw [← hsame]
    exact h'.found q
  · exact .inr ⟨hnone, h'.find? hmade, hleads.of_keeps h'.keeps⟩

theorem Made.along (h : Made r t t') (habsolute : r.isAbsolute = p.isAbsolute) (hmoves : r.moves <+: p.moves) :
    Made p t t' := by
  refine ⟨h.workingDirectory, fun q => (h.found q).imp_right ?_⟩
  rintro ⟨hnone, hmade, steps, hprefix, hwalk⟩
  refine ⟨hnone, hmade, steps, hprefix.trans hmoves, ?_⟩
  rw [start, ← habsolute]
  exact hwalk

/-- Steps that lead nowhere can be left out. -/
theorem walk_moves (t : FileTree) (place : Place) (steps : List PathStep) :
    t.walk place (steps.filter (· ≠ .here)) = t.walk place steps := by
  induction steps generalizing place with
  | nil => rfl
  | cons s steps ih =>
    cases s with
    | here => exact ih place
    | up => exact ih place.tail
    | name s =>
      rw [List.filter_cons_of_pos (by simp), walk, walk]
      cases t.enter place (.name s) with
      | error fault => rfl
      | ok next => exact ih next

/-- A directory is made where there is nothing, in a directory that is there. -/
theorem makeDirectory_eq_ok (h : t.makeDirectory p = .ok t') : ∃ place name, t.locate p = .ok (.entry place name) ∧
    name.utf8ByteSize ≤ Path.nameByteLimit ∧ t.find? (name :: place) = none ∧
    t' = t.put (name :: place) .directory := by
  rw [makeDirectory] at h
  split at h
  · cases h
  · cases h
  · next place name hlocate =>
    rw [lookup] at h
    split at h
    · cases h
    · cases h
    · next hlookup =>
      split at hlookup
      · cases hlookup
      · next hsize => exact ⟨place, name, hlocate, Nat.not_lt.1 hsize, Except.ok.inj hlookup, (Except.ok.inj h).symm⟩

theorem made_of_makeDirectory (h : t.makeDirectory p = .ok t') : Made p t t' := by
  obtain ⟨place, name, hlocate, hsize, hnone, rfl⟩ := makeDirectory_eq_ok h
  obtain ⟨steps, hsteps, hwalk⟩ := locate_eq_entry.1 hlocate
  have hkeeps : Keeps t (t.put (name :: place) .directory) := keeps_put (List.cons_ne_nil _ _) fun _ => rfl
  have hfound := find?_put_self t (List.cons_ne_nil name place) .directory
  have hleads : (t.put (name :: place) .directory).LeadsThrough p (name :: place) := by
    refine ⟨p.moves, List.prefix_refl _, ?_⟩
    rw [Path.moves, walk_moves, hsteps, walk_append, bind_eq_ok, start_of_keeps hkeeps]
    exact ⟨place, walk_of_keeps hkeeps hwalk, walk_cons_eq_ok.2 ⟨_, enter_name_eq_ok.2 ⟨hsize, hfound, rfl⟩, rfl⟩⟩
  refine ⟨rfl, fun q => ?_⟩
  by_cases hq : q = name :: place
  · subst hq
    exact .inr ⟨hnone, hfound, hleads⟩
  · exact .inl (find?_put_of_ne t hq _)

theorem made_of_makeAfter {parents : FileTree → FileTree × Option FileFault}
    (hr : ∀ {t t'}, t.makeDirectory r = .ok t' → Made p t t') (hparents : ∀ t, Made p t (parents t).1) (t : FileTree) :
    Made p t (t.makeAfter r parents).1 := by
  rw [makeAfter]
  split
  · next hmade => exact hr hmade
  · have hbefore := hparents t
    split
    · next heq =>
      rw [heq] at hbefore
      exact hbefore
    · next t₁ heq =>
      rw [heq] at hbefore
      split
      · next hmade => exact hbefore.trans (hr hmade)
      · exact hbefore
  · exact Made.refl p t

theorem made_of_makeAlong {steps : List PathStep} (h : steps.reverse <+: p.moves) (t : FileTree) :
    Made p t (makeAlong p.isAbsolute steps t).1 := by
  -- the steps come last first, so the rest of them is the parent
  induction steps generalizing t with
  | nil => exact Made.refl p t
  | cons s rest ih =>
    have hrest : rest.reverse <+: p.moves := by
      rw [List.reverse_cons] at h
      exact (List.prefix_append _ _).trans h
    have hmoves : (⟨p.isAbsolute, (s :: rest).reverse, false⟩ : Path).moves <+: p.moves := by
      rw [Path.moves, List.filter_eq_self.2 fun step hstep => (List.mem_filter.1 (h.subset hstep)).2]
      exact h
    refine made_of_makeAfter (fun hmade => ?_) (ih hrest) t
    exact (made_of_makeDirectory hmade).along rfl hmoves

theorem made_of_makeDirectories (t : FileTree) (p : Path) : Made p t (t.makeDirectories p).1 := by
  refine made_of_makeAfter made_of_makeDirectory (fun t => made_of_makeAlong ?_ t) t
  rw [← List.dropLast_reverse, List.reverse_reverse]
  exact List.dropLast_prefix _

/-- Whether or not all the directories can be made. -/
theorem made_of_makeAll (t : FileTree) (dir : String) :
    (t.makeAll dir).2 = t ∨ ∃ p, Path.read dir = .ok p ∧ Made p t (t.makeAll dir).2 := by
  rw [makeAll]
  split
  · exact .inl rfl
  · split
    · exact .inl rfl
    · next p hread =>
      refine .inr ⟨p, hread, ?_⟩
      have hmade := made_of_makeDirectories t p
      split <;> next heq => rwa [heq] at hmade

end ServiceSchema.FileTree
