import ModelDepot.Proofs.Files.Reaching

/-! # Files that come and go in a directory

A place is a name in a directory that a path leads to. A file is written there, copied there and taken away
again, and the rest of the file system stays as it is.
-/

namespace ModelDepot

namespace Files

namespace FileSystem

variable {fs fs' : FileSystem} {p : Path} {l k : Location} {m : Name} {bytes : List UInt8}

/-! ## Taking away -/

theorem lookup_filter (entries : List (Location × Node)) (keep : Location → Bool) (k : Location) :
    (entries.filter fun e => keep e.1).lookup k = if keep k then entries.lookup k else none := by
  induction entries with
  | nil => simp
  | cons e rest ih =>
    obtain ⟨at', n⟩ := e
    rw [List.filter_cons, List.lookup_cons]
    by_cases here : k = at'
    · subst here
      by_cases kept : keep k = true
      · simp [kept]
      · simp [kept, ih]
    · have missed : (k == at') = false := beq_eq_false_iff_ne.mpr here
      rw [missed]
      by_cases kept : keep at' = true
      · simp only [kept, if_true, List.lookup_cons, missed, ih]
      · rw [if_neg kept, ih]

theorem node?_erase (sound : fs.Sound) (file : fs.node? l = some (.file bytes)) (k : Location) :
    (fs.erase l).node? k = if k = l then none else fs.node? k := by
  have ne : l ≠ [] := by
    rintro rfl
    simp [node?] at file
  by_cases root : k = []
  · subst root
    rw [if_neg (Ne.symm ne)]
    rfl
  have filtered : (fs.erase l).node? k = if ! l.isPrefixOf k then fs.entries.lookup k else none := by
    rw [node?, if_neg root]
    exact lookup_filter fs.entries (fun e => ! l.isPrefixOf e) k
  rw [filtered]
  by_cases here : k = l
  · subst here
    simp [List.isPrefixOf_iff_prefix.mpr (List.prefix_refl k)]
  rw [if_neg here, node?, if_neg root]
  by_cases below : l <+: k
  · obtain ⟨more, rfl⟩ := below
    have nothing : fs.entries.lookup (l ++ more) = none := by
      cases node : fs.entries.lookup (l ++ more) with
      | none => rfl
      | some n =>
        have above := sound.above (fun same => here (by simp [same])) ((if_neg root).trans node)
        simp [file] at above
    simp [nothing]
  · have off : l.isPrefixOf k = false := Bool.eq_false_iff.mpr (mt List.isPrefixOf_iff_prefix.mp below)
    simp [off]

theorem Sound.erase_file (sound : fs.Sound) (file : fs.node? l = some (.file bytes)) : (fs.erase l).Sound where
  names := by
    intro k n node
    rw [node?_erase sound file] at node
    split at node
    · simp at node
    · exact sound.names k n node
  working := sound.working
  parents := by
    intro k name n node
    rw [node?_erase sound file] at node ⊢
    split at node
    · simp at node
    have parent := sound.parents k name n node
    have other : k ≠ l := by
      rintro rfl
      simp [file] at parent
    rw [if_neg other, parent]

/-! ## Making directories -/

theorem Sound.makeLineage (sound : fs.Sound) (ps : List Path) : (fs.makeLineage ps).2.Sound :=
  makeLineage_keeps ps (fun _ _ _ _ sound made => sound.makeDirectory made) sound

theorem Sound.makeDirectories (sound : fs.Sound) (p : Path) : (fs.makeDirectories p).2.Sound :=
  sound.makeLineage p.lineage

theorem Furnished.extended (h : Furnished fs fs') : Extended fs fs' where
  toGrown := h.grown
  fresh := by
    intro l free n node
    obtain same | ⟨-, made⟩ := h.node l
    · simp [same, free] at node
    · obtain rfl : .directory = n := Option.some.inj (made.symm.trans node)
      simp [Node.IsLink]

/-! ## Files and directories -/

/-- Everything is still there, and all that was added are files and directories. -/
structure Stocked (fs fs' : FileSystem) : Prop extends Extended fs fs' where
  kept : ∀ l, fs'.node? l = some .other → fs.node? l = some .other

theorem Stocked.trans {fs'' : FileSystem} (h : Stocked fs fs') (h' : Stocked fs' fs'') : Stocked fs fs'' where
  toExtended := h.toExtended.trans h'.toExtended
  kept := fun l node => h.kept l (h'.kept l node)

theorem Furnished.stocked (h : Furnished fs fs') : Stocked fs fs' where
  toExtended := h.extended
  kept := by
    intro l node
    obtain same | ⟨-, made⟩ := h.node l
    · exact same ▸ node
    · simp [made] at node

theorem Stocked.refl (fs : FileSystem) : Stocked fs fs := ⟨.refl fs, fun _ => id⟩

theorem stocked_write (written : fs.write p bytes = .ok fs') : Stocked fs fs' where
  toExtended := extended_write written
  kept := by
    intro k node
    rcases put_of_write written with ⟨spot, -, ne, -, rfl⟩ | ⟨-, -, -, -, rfl⟩
    · rw [node?_put fs ne] at node
      split at node
      · simp at node
      · exact node
    · exact node

theorem stocked_copy {source : Path} (copied : fs.copy source p = .ok fs') : Stocked fs fs' :=
  copy_keeps copied (fun _ _ _ stocked written => stocked.trans (stocked_write written)) (.refl fs)

/-! ## Places -/

/-- A name can be looked up in the directory that a path leads to. -/
structure Place (fs : FileSystem) (p : Path) (l : Location) (m : Name) : Prop where
  leads : fs.Leads p l
  directory : fs.node? l = some .directory
  segment : Segment m
  short : m.length ≤ maxName
  fine : (p.child m).fault? = none

theorem Place.grown (place : fs.Place p l m) (grown : Grown fs fs') : fs'.Place p l m where
  leads := place.leads.grown grown
  directory := grown.directory place.directory
  segment := place.segment
  short := place.short
  fine := place.fine

theorem place_of_locate {last : Bool} {spot : Spot} (segment : Segment m)
    (found : fs.locate last (p.child m) = .ok spot) : ∃ l, fs.Place p l m := by
  obtain ⟨left, there, leads, directory, goes⟩ :=
    leads_of_locate (List.cons_ne_nil m []) (by simpa using segment) found
  exact ⟨there, leads, directory, segment, (proper_of_follow segment goes).length_le, (follow_of_locate found).2.1⟩

namespace Place

variable (place : fs.Place p l m)
include place

theorem locate (last : Bool) (noLink : last = true → ∀ x, fs.node? (l ++ [m]) = some x → ¬ x.IsLink) :
    fs.locate last (p.child m) =
      match fs.node? (l ++ [m]) with
      | none => .ok (.free (l ++ [m]))
      | some x => .ok (.found (l ++ [m]) x) := by
  have located := place.leads.locate_child place.directory place.segment place.short last noLink
  rw [place.fine] at located
  exact located

theorem reaches {n : Node} (node : fs.node? (l ++ [m]) = some n) (notLink : ¬ n.IsLink) :
    fs.Reaches (p.child m) (l ++ [m]) where
  fine := place.fine
  some' := p.bytes_child_ne_nil place.segment
  leads := place.leads.child place.directory place.segment place.short node notLink

theorem write (before : fs.node? (l ++ [m]) = none ∨ ∃ old, fs.node? (l ++ [m]) = some (.file old)) :
    fs.write (p.child m) bytes = .ok (fs.put (l ++ [m]) (.file bytes)) := by
  have noLink : ∀ x, fs.node? (l ++ [m]) = some x → ¬ x.IsLink := by
    rintro x node ⟨target, rfl⟩
    obtain free | ⟨old, file⟩ := before <;> simp_all
  rw [FileSystem.write, writeSpot_child place.segment, place.locate true fun _ => noLink]
  obtain free | ⟨old, file⟩ := before
  · rw [free]
  · rw [file]

theorem remove {n : Node} (node : fs.node? (l ++ [m]) = some n) :
    fs.remove (p.child m) = .ok (fs.erase (l ++ [m])) := by
  rw [FileSystem.remove, place.locate false (by simp), node]

theorem makeDirectories (there : fs.node? (l ++ [m]) = some .directory) :
    fs.makeDirectories (p.child m) = (.ok (), fs) := by
  have taken : fs.makeDirectory (p.child m) = .error .alreadyExists := by
    rw [makeDirectory, unslashed_child place.segment, place.locate false (by simp), there]
  have isDirectory : fs.isDirectory (p.child m) = true := by
    rw [FileSystem.isDirectory, (place.reaches there (by simp [Node.IsLink])).status there]
  rw [FileSystem.makeDirectories, Path.lineage, Path.lineageFrom,
    makeLineage_of_error (p.bytes_child_ne_nil place.segment) taken (by simp), isDirectory, if_pos rfl]

theorem makeDirectory (free : fs.node? (l ++ [m]) = none) :
    fs.makeDirectory (p.child m) = .ok (fs.put (l ++ [m]) .directory) := by
  rw [FileSystem.makeDirectory, unslashed_child place.segment, place.locate false (by simp), free]

theorem copy {source : Path} (reaches : fs.Reaches source k) (file : fs.node? k = some (.file bytes))
    (free : fs.node? (l ++ [m]) = none) :
    ∃ fs', fs.copy source (p.child m) = .ok fs' ∧ fs'.read (p.child m) = .ok bytes := by
  have ne : l ++ [m] ≠ [] := by simp
  have grown : Grown fs (fs.put (l ++ [m]) (.file [])) := grown_put ne (.inl free)
  have emptied : (fs.put (l ++ [m]) (.file [])).node? (l ++ [m]) = some (.file []) := by rw [node?_put fs ne, if_pos rfl]
  have kept : (fs.put (l ++ [m]) (.file [])).node? k = some (.file bytes) := by
    rw [node?_put fs ne, if_neg, file]
    rintro rfl
    simp [file] at free
  have grown' : Grown _ ((fs.put (l ++ [m]) (.file [])).put (l ++ [m]) (.file bytes)) :=
    grown_put ne (.inr ⟨[], emptied⟩)
  have written : ((fs.put (l ++ [m]) (.file [])).put (l ++ [m]) (.file bytes)).node? (l ++ [m]) = some (.file bytes) := by
    rw [node?_put _ ne, if_pos rfl]
  refine ⟨(fs.put (l ++ [m]) (.file [])).put (l ++ [m]) (.file bytes), ?_, ?_⟩
  · rw [FileSystem.copy, read, reaches.status file]
    simp only [place.write (.inl free)]
    rw [read, (reaches.grown grown).status kept]
    simp only [(place.grown grown).write (.inr ⟨[], emptied⟩)]
  · have place' := (place.grown grown).grown grown'
    rw [read, (place'.reaches written (by simp [Node.IsLink])).status written]

theorem inside (sound : fs.Sound) (free : fs.node? (l ++ [m]) = none) {n : Name} (segment : Segment n)
    (short : n.length ≤ maxName) (fine : ((p.child m).child n).fault? = none) :
    (fs.put (l ++ [m]) .directory).Place (p.child m) (l ++ [m]) n ∧
      (fs.put (l ++ [m]) .directory).node? (l ++ [m] ++ [n]) = none := by
  have ne : l ++ [m] ≠ [] := by simp
  have made : (fs.put (l ++ [m]) .directory).node? (l ++ [m]) = some .directory := by rw [node?_put fs ne, if_pos rfl]
  have place' := place.grown (furnished_put ne free).grown
  refine ⟨⟨(place'.reaches made (by simp [Node.IsLink])).leads, made, segment, short, fine⟩, ?_⟩
  rw [node?_put fs ne, if_neg (by simp)]
  cases node : fs.node? (l ++ [m] ++ [n]) with
  | none => rfl
  | some x => simpa [free] using sound.parents _ _ x node

theorem present_eq_false (free : fs.node? (l ++ [m]) = none) : fs.present (p.child m) = false := by
  rw [present, status, place.locate true (by simp [free]), free]

end Place

/-! ## Files at a place -/

/-- In a sound file system a file is at a place. -/
structure Staged (fs : FileSystem) (p : Path) (l : Location) (m : Name) (bytes : List UInt8) : Prop where
  sound : fs.Sound
  place : fs.Place p l m
  file : fs.node? (l ++ [m]) = some (.file bytes)

theorem Place.staged (place : fs.Place p l m) (sound : fs.Sound)
    (before : fs.node? (l ++ [m]) = none ∨ ∃ old, fs.node? (l ++ [m]) = some (.file old))
    (written : fs.write (p.child m) bytes = .ok fs') : fs'.Staged p l m bytes ∧ Stocked fs fs' := by
  have ne : l ++ [m] ≠ [] := by simp
  have sound' := sound.write written
  rw [place.write before, Except.ok.injEq] at written
  subst written
  have extended : Extended fs (fs.put (l ++ [m]) (.file bytes)) := by
    refine extended_put ne (by simp [Node.IsLink]) (before.imp_right ?_)
    rintro ⟨old, file⟩
    exact ⟨.file old, file, trivial⟩
  refine ⟨⟨sound', place.grown extended.toGrown, by rw [node?_put fs ne, if_pos rfl]⟩, extended, fun k node => ?_⟩
  rw [node?_put fs ne] at node
  split at node
  · simp at node
  · exact node

theorem Staged.reaches (staged : fs.Staged p l m bytes) : fs.Reaches (p.child m) (l ++ [m]) :=
  staged.place.reaches staged.file (by simp [Node.IsLink])

theorem Staged.furnished (staged : fs.Staged p l m bytes) (furnished : Furnished fs fs') (sound : fs'.Sound) :
    fs'.Staged p l m bytes where
  sound := sound
  place := staged.place.grown furnished.grown
  file := furnished.kept staged.file

end FileSystem

end Files

end ModelDepot
