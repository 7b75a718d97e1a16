import ModelDepot.Proofs.Files.Straight

/-! # Requests that spare a directory

A request changes the place that its path leads to and nothing else. Paths that lead nowhere into a directory
leave everything below it as it was.
-/

namespace ModelDepot

namespace Files

namespace FileSystem

variable {fs fs' fs'' : FileSystem} {d l : Location}

/-- As long as no links are added, the path of a location leads neither to `d` nor to a place below it. -/
def Clear (fs : FileSystem) (d l : Location) : Prop :=
  ∀ fs', Extended fs fs' → ∀ last spot, fs'.locate last l.path = .ok spot → ¬ d <+: spot.location

theorem Clear.extended (clear : fs.Clear d l) (h : Extended fs fs') : fs'.Clear d l :=
  fun fs'' h' => clear fs'' (h.trans h')

theorem clear_of_noLinks (proper : l.Proper) (noLinks : ∀ k n, k <+: l → fs.node? k = some n → ¬ n.IsLink)
    (apart : ¬ d <+: l) : fs.Clear d l := by
  intro fs' h last spot found
  rwa [location_of_locate proper (fun k n before => h.notLink (fun m => noLinks k m before) n) found]

/-- A sound file system has grown, and at `d` and below everything is as it was. -/
structure Spared (d : Location) (fs fs' : FileSystem) : Prop where
  extended : Extended fs fs'
  sound : fs'.Sound
  kept : ∀ l, d <+: l → fs'.node? l = fs.node? l

theorem Spared.refl (d : Location) (sound : fs.Sound) : Spared d fs fs := ⟨.refl fs, sound, fun _ _ => rfl⟩

theorem Spared.trans (h : Spared d fs fs') (h' : Spared d fs' fs'') : Spared d fs fs'' where
  extended := h.extended.trans h'.extended
  sound := h'.sound
  kept := fun l below => (h'.kept l below).trans (h.kept l below)

theorem kept_put {n : Node} (ne : l ≠ []) (off : ¬ d <+: l) : ∀ k, d <+: k → (fs.put l n).node? k = fs.node? k := by
  intro k below
  rw [node?_put fs ne, if_neg]
  rintro rfl
  exact off below

/-! ## Making directories -/

theorem spared_makeDirectory (sound : fs.Sound) (proper : l.Proper) (clear : fs.Clear d l)
    (made : fs.makeDirectory l.path = .ok fs') : Spared d fs fs' := by
  have sound' := sound.makeDirectory made
  unfold makeDirectory at made
  rw [Location.unslashed_path proper] at made
  split at made
  · simp at made
  · next k found =>
    obtain ⟨ne, free⟩ := holds_of_locate _ found
    cases made
    exact ⟨extended_put ne (by simp [Node.IsLink]) (.inl free), sound', kept_put ne (clear fs (.refl fs) _ _ found)⟩
  · simp at made

theorem spared_makeLineage (sound : fs.Sound) (ps : List Path)
    (clear : ∀ q ∈ ps, ∃ l : Location, q = l.path ∧ l.Proper ∧ fs.Clear d l) : Spared d fs (fs.makeLineage ps).2 := by
  refine makeLineage_keeps ps (fun p hp fs₁ fs₂ spared made => ?_) (.refl d sound)
  obtain ⟨l, rfl, proper, clearHere⟩ := clear p hp
  exact spared.trans (spared_makeDirectory spared.sound proper (clearHere.extended spared.extended) made)

theorem spared_makeDirectories (sound : fs.Sound) (proper : l.Proper) (clear : ∀ k, k <+: l → fs.Clear d k) :
    Spared d fs (fs.makeDirectories l.path).2 := by
  refine spared_makeLineage sound _ fun q hq => ?_
  obtain ⟨j, rfl⟩ := Location.lineage_path proper q hq
  exact ⟨l.take j, rfl, proper.take j, clear _ (List.take_prefix j l)⟩

/-! ## Writing -/

theorem spared_write (sound : fs.Sound) (proper : l.Proper) (clear : fs.Clear d l) {bytes : List UInt8}
    (written : fs.write l.path bytes = .ok fs') : Spared d fs fs' := by
  have sound' := sound.write written
  have spotEq : fs.writeSpot l.path = fs.locate true l.path := by
    rw [writeSpot, Location.unslashed_path proper]
    rfl
  obtain ⟨spot, found, ne, before, rfl⟩ | ⟨-, -, -, -, rfl⟩ := put_of_write written
  · rw [spotEq] at found
    exact ⟨extended_put_file ne before bytes, sound', kept_put ne (clear fs (.refl fs) _ _ found)⟩
  · exact .refl d sound

theorem spared_copy (sound : fs.Sound) (proper : l.Proper) (clear : fs.Clear d l) {source : Path}
    (copied : fs.copy source l.path = .ok fs') : Spared d fs fs' := by
  refine copy_keeps copied (fun _ _ _ spared written => ?_) (.refl d sound)
  exact spared.trans (spared_write spared.sound proper (clear.extended spared.extended) written)

end FileSystem

end Files

end ModelDepot
