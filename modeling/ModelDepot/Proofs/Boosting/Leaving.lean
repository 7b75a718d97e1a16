import Mathlib
import ModelDepot.Proofs.Boosting.Keeping
import ModelDepot.Proofs.Files.Restoring

/-! # What staging leaves

Loading leaves the file system as it was. Saving leaves it so too unless it goes on to the store, and then everything
that was there is kept, unless the path of the booster steps upward from a directory that is only made for it.
-/

namespace ModelDepot

open Files (FileSystem Location Name Node Path Segment)
open Files.FileSystem (Beside Extended Furnished Stocked)
open Artifact (Store joinUri)

/-! ## Copies that succeed or fail -/

namespace Artifact.Store

variable {fs : FileSystem} {here : Path}

theorem copyPath_stages (here p : Path) (fs : FileSystem) :
    ∃ fs₁, Furnished fs fs₁ ∧ (fs.Sound → fs₁.Sound) ∧
      (∀ k, fs.node? k = none → fs₁.node? k ≠ none → fs₁.Passes p k) ∧
        ((copyPath here p fs).2 = fs₁ ∨ fs₁.copy here p = .ok (copyPath here p fs).2) := by
  unfold copyPath
  cases above : p.parent? with
  | none =>
    refine ⟨fs, .refl fs, id, fun _ nothing there => absurd nothing there, ?_⟩
    cases done : fs.copy here p with
    | error e => exact .inl (by simp [done])
    | ok fs' => exact .inr (by simp [done])
  | some parent =>
    have furnished := Files.FileSystem.furnished_makeDirectories fs parent
    have soundly : fs.Sound → (fs.makeDirectories parent).2.Sound := fun sound => sound.makeDirectories parent
    have passes : ∀ k, fs.node? k = none → (fs.makeDirectories parent).2.node? k ≠ none →
        (fs.makeDirectories parent).2.Passes p k :=
      fun _ => Files.FileSystem.passes_of_makeDirectories (Path.parent?_cases above)
    rcases made : fs.makeDirectories parent with ⟨r, fs₁⟩
    rw [made] at furnished soundly passes
    refine ⟨fs₁, furnished, soundly, passes, ?_⟩
    cases r with
    | error e => exact .inl (by simp [made])
    | ok u =>
      cases done : fs₁.copy here p with
      | error e => exact .inl (by simp [made, done])
      | ok fs' => exact .inr (by simp [made, done])

/-- **What a copy changes.** However a copy between paths ends, all that was there is as it was, but for the bytes of
one file where the target leads afterwards. A target that led nowhere leads to none that was there, unless it steps
upward from a directory that was made for it. -/
theorem copyPath_changes (sound : fs.Sound) (file : fs.isFile here = true) (p : Path) :
    Extended fs (copyPath here p fs).2 ∧ (copyPath here p fs).2.Sound ∧
      ∀ k n, fs.node? k = some n →
        (copyPath here p fs).2.node? k = some n ∨
          (copyPath here p fs).2.Reaches p k ∧ (fs.present p = false → ¬ fs.Grounded p) := by
  obtain ⟨t, bytes, reaches, source⟩ := reaches_of_isFile file
  obtain ⟨fs₁, furnished, soundly, passes, same | copied⟩ := copyPath_stages here p fs
  · rw [same]
    exact ⟨furnished.extended, soundly sound, fun k n node => .inl (furnished.kept node)⟩
  rcases Files.FileSystem.copy_eq (soundly sound) (reaches.grown furnished.grown) (furnished.kept source) copied with
    ⟨same, -⟩ | ⟨l, spot, found, rfl, -, -, reaches', sound', extended, nodes⟩
  · rw [same]
    exact ⟨furnished.extended, soundly sound, fun k n node => .inl (furnished.kept node)⟩
  · refine ⟨furnished.extended.trans extended, sound', fun k n node => ?_⟩
    by_cases here' : k = spot.location
    · subst here'
      refine .inr ⟨reaches', fun absent grounded => ?_⟩
      rw [Files.FileSystem.free_of_made sound grounded absent furnished passes found] at node
      cases node
    · exact .inl ((nodes k).trans ((if_neg here').trans (furnished.kept node)))

end Artifact.Store

namespace Boosting.Materializer

variable {m : Materializer} {b : Booster} {uri : String} {fs fs' : FileSystem} {d : Location} {n : Nat}

/-! ## Loading -/

theorem eq_stagedPath_of_resolve {s : Store} {root p : Path} {text : String} (absolute : root.isAbsolute = true)
    (spelled : (stagedPath root n).text? = some text) (resolved : s.resolve text = .ok p) : p = stagedPath root n := by
  have absolute' : (stagedPath root n).isAbsolute = true := by
    rw [stagedPath, Path.isAbsolute_child _ segment_fileName,
      Path.isAbsolute_child _ (segment_temporaryName (by decide) n), absolute]
  rw [s.resolve_text absolute' spelled] at resolved
  split at resolved
  · cases resolved
  · exact (Except.ok.inj resolved).symm

theorem fetch_snd (m : Materializer) (uri : String) (copy : Path) (fs : FileSystem) :
    (m.fetch uri copy fs).2 =
      match copy.text? with
      | none => fs
      | some target => (m.store.copy (joinUri uri fileName) target false fs).2 := by
  unfold fetch
  cases copy.text? with
  | none => rfl
  | some target =>
    simp only
    rcases m.store.copy (joinUri uri fileName) target false fs with ⟨_ | _, fs'⟩
    · rfl
    · simp only
      split <;> rfl

/-- All that was added is in the temporary directory with a number, and no link is. -/
structure Inside (fs : FileSystem) (d : Location) (n : Nat) (fs' : FileSystem) : Prop where
  beside : Beside (d ++ [temporaryName "" n]) fs fs'
  extended : Extended (fs.put (d ++ [temporaryName "" n]) .directory) fs'

theorem inside_made (sound : fs.Sound) (free : fs.node? (d ++ [temporaryName "" n]) = none) :
    Inside fs d n (fs.put (d ++ [temporaryName "" n]) .directory) :=
  ⟨(Beside.refl _ fs).put (sound.vacant free) (List.prefix_refl _) .directory, .refl _⟩

theorem Inside.reaches {root : Path} (inside : Inside fs d n fs') (place : fs.Place root d (temporaryName "" n))
    (free : fs.node? (d ++ [temporaryName "" n]) = none) :
    fs'.Place root d (temporaryName "" n) ∧ fs'.node? (d ++ [temporaryName "" n]) = some .directory := by
  have ne : d ++ [temporaryName "" n] ≠ [] := by simp
  have made : (fs.put (d ++ [temporaryName "" n]) .directory).node? (d ++ [temporaryName "" n]) = some .directory := by
    rw [fs.node?_put ne, if_pos rfl]
  exact ⟨(place.grown (Files.FileSystem.furnished_put ne free).grown).grown inside.extended.toGrown,
    inside.extended.toGrown.directory made⟩

section
variable {root : Path} (sound : fs.Sound) (place : fs.Place root d (temporaryName "" n))
  (free : fs.node? (d ++ [temporaryName "" n]) = none)
include sound place free

theorem Inside.write {bytes : List UInt8} {fs'' : FileSystem} (inside : Inside fs d n fs')
    (written : fs'.write (stagedPath root n) bytes = .ok fs'') : Inside fs d n fs'' := by
  obtain ⟨place', directory⟩ := inside.reaches place free
  have extended := inside.extended.trans (Files.FileSystem.extended_write written)
  obtain ⟨spot, found, -, -, rfl⟩ | ⟨-, -, -, -, rfl⟩ := Files.FileSystem.put_of_write written
  · refine ⟨inside.beside.put (sound.vacant free) ?_ _, extended⟩
    have located := Files.FileSystem.locate_of_writeSpot found
    obtain ⟨l, inner⟩ := Files.FileSystem.place_of_locate segment_fileName located
    obtain rfl : l = d ++ [temporaryName "" n] :=
      (place'.reaches directory (by simp [Node.IsLink])).leads.unique inner.leads
    -- No link was added, so that the file is in the directory itself.
    have noLink : ∀ x, fs'.node? (d ++ [temporaryName "" n] ++ [Text.utf8 fileName]) = some x → ¬ x.IsLink := by
      refine inside.extended.notLink fun x node => ?_
      rw [fs.node?_put (by simp), if_neg (by simp), sound.free_below free (List.prefix_append _ _)] at node
      cases node
    rw [stagedPath, inner.locate true fun _ => noLink] at located
    split at located <;>
      · obtain rfl := Except.ok.inj located
        exact List.prefix_append _ _
  · exact ⟨inside.beside, extended⟩

theorem inside_copyPath (here : Path) :
    Inside fs d n (Store.copyPath here (stagedPath root n) (fs.put (d ++ [temporaryName "" n]) .directory)).2 := by
  have start := inside_made sound free
  obtain ⟨place', directory⟩ := start.reaches place free
  have parent : (stagedPath root n).parent? = some (root.child (temporaryName "" n)) :=
    Path.parent?_child_child root place.segment segment_fileName
  rw [Store.copyPath, parent]
  simp only [place'.makeDirectories directory]
  split
  · next fs' copied =>
    exact Files.FileSystem.copy_keeps copied (fun _ _ _ inside written => inside.write sound place free written) start
  · exact start

end

theorem inside_fetch (sound : fs.Sound) (place : fs.Place (m.stagingRoot fs) d (temporaryName "" n))
    (free : fs.node? (d ++ [temporaryName "" n]) = none) (uri : String) :
    Inside fs d n
      (m.fetch uri (stagedPath (m.stagingRoot fs) n) (fs.put (d ++ [temporaryName "" n]) .directory)).2 := by
  have start := inside_made sound free
  rw [fetch_snd]
  split
  · exact start
  · next target spelled =>
    rcases m.store.copy_cases (joinUri uri fileName) target false (fs.put (d ++ [temporaryName "" n]) .directory) with
      ⟨text, refused, -⟩ | ⟨here, p, -, resolved, ⟨-, refused⟩ | ⟨-, ⟨-, -, refused⟩ | ⟨-, same⟩⟩⟩
    · rwa [refused]
    · rwa [refused]
    · rwa [refused]
    · obtain rfl := eq_stagedPath_of_resolve (m.isAbsolute_stagingRoot fs) spelled resolved
      rw [same]
      exact inside_copyPath sound place free here

/-- **Loading leaves the file system as it was.** -/
theorem load_restores (m : Materializer) (sound : fs.Sound) (uri : String) : (m.load uri fs).2 = fs := by
  unfold load
  cases fresh : m.freshPath? fs "" with
  | none => rfl
  | some directory =>
    obtain ⟨n, d, rfl, place, free⟩ := place_of_freshPath? (by decide) fresh
    have inside := inside_fetch (m := m) sound place free uri
    obtain ⟨place', there⟩ := inside.reaches place free
    simp only [place.makeDirectory free]
    show cleared _ (m.fetch uri (stagedPath (m.stagingRoot fs) n) _).2 = fs
    rw [cleared, place'.remove there]
    exact inside.beside.erase (sound.vacant free)

/-! ## Saving -/

/-- The file system with a booster in a temporary file. -/
def holding (fs : FileSystem) (d : Location) (n : Nat) (bytes : List UInt8) : FileSystem :=
  (fs.put (d ++ [temporaryName ".json" n]) (.file [])).put (d ++ [temporaryName ".json" n]) (.file bytes)

theorem node?_holding (fs : FileSystem) (d : Location) (n : Nat) (bytes : List UInt8) (k : Location) :
    (holding fs d n bytes).node? k = if k = d ++ [temporaryName ".json" n] then some (.file bytes) else fs.node? k := by
  rw [holding, Files.FileSystem.node?_put _ (by simp), Files.FileSystem.node?_put _ (by simp)]
  split <;> rfl

section
variable {root : Path} {bytes : List UInt8} (sound : fs.Sound) (place : fs.Place root d (temporaryName ".json" n))
  (free : fs.node? (d ++ [temporaryName ".json" n]) = none)
include sound place free

theorem staged_holding (bytes : List UInt8) :
    (holding fs d n bytes).Staged root d (temporaryName ".json" n) bytes ∧ Stocked fs (holding fs d n bytes) := by
  have emptied : fs.write (root.child (temporaryName ".json" n)) [] = .ok _ := place.write (.inl free)
  obtain ⟨staged, stocked⟩ := place.staged sound (.inl free) emptied
  have written : Files.FileSystem.write _ (root.child (temporaryName ".json" n)) bytes = .ok (holding fs d n bytes) :=
    staged.place.write (.inr ⟨[], staged.file⟩)
  obtain ⟨staged', stocked'⟩ := staged.place.staged staged.sound (.inr ⟨[], staged.file⟩) written
  exact ⟨staged', stocked.trans stocked'⟩

theorem cleared_holding (bytes : List UInt8) :
    cleared (root.child (temporaryName ".json" n)) (holding fs d n bytes) = fs := by
  obtain ⟨staged, -⟩ := staged_holding sound place free bytes
  have vacant := sound.vacant free
  have beside : Beside (d ++ [temporaryName ".json" n]) fs (holding fs d n bytes) :=
    ((Beside.refl _ fs).put vacant (List.prefix_refl _) _).put vacant (List.prefix_refl _) _
  rw [cleared, staged.place.remove staged.file]
  exact beside.erase vacant

end

theorem save_of_fresh (b : Booster) (uri : String)
    (fresh : m.freshPath? fs ".json" = some ((m.stagingRoot fs).child (temporaryName ".json" n)))
    (place : fs.Place (m.stagingRoot fs) d (temporaryName ".json" n))
    (free : fs.node? (d ++ [temporaryName ".json" n]) = none) :
    m.save b uri fs =
      let file := (m.stagingRoot fs).child (temporaryName ".json" n)
      match file.text? with
      | none => (.error .stagingPath, cleared file (holding fs d n b.toBytes))
      | some source =>
        let copied := m.store.copy source (joinUri uri fileName) false (holding fs d n b.toBytes)
        (copied.1.mapError .store, cleared file copied.2) := by
  have emptied : fs.write ((m.stagingRoot fs).child (temporaryName ".json" n)) [] = .ok _ := place.write (.inl free)
  have ne : d ++ [temporaryName ".json" n] ≠ [] := by simp
  have there : (fs.put (d ++ [temporaryName ".json" n]) (.file [])).node? (d ++ [temporaryName ".json" n]) =
      some (.file []) := by rw [fs.node?_put ne, if_pos rfl]
  have written : Files.FileSystem.write _ ((m.stagingRoot fs).child (temporaryName ".json" n)) b.toBytes =
      .ok (holding fs d n b.toBytes) :=
    (place.grown (Files.FileSystem.grown_put ne (.inl free))).write (.inr ⟨[], there⟩)
  unfold save
  rw [fresh]
  simp only [emptied]
  unfold deliver Booster.saveTo
  simp only [written]
  cases ((m.stagingRoot fs).child (temporaryName ".json" n)).text? with
  | none => rfl
  | some source =>
    rcases copied : m.store.copy source (joinUri uri fileName) false (holding fs d n b.toBytes) with ⟨_ | _, fs'⟩
    · simp only [copied]
      rfl
    · simp only [copied]
      rfl

/-- However saving ends, the temporary file is gone and all else that was there is kept, but for the file where the
path of the booster leads if it led nowhere before. -/
structure Leaves (m : Materializer) (uri : String) (fs fs' : FileSystem) : Prop where
  workingDirectory : fs'.workingDirectory = fs.workingDirectory
  clear : ∀ file, m.freshPath? fs ".json" = some file → isFree fs' file = true
  kept : ∀ k n, fs.node? k = some n →
    fs'.node? k = some n ∨
      ∃ p, m.store.resolve (joinUri uri fileName) = .ok p ∧ fs.present p = false ∧ ¬ fs.Grounded p ∧ fs'.Reaches p k

theorem isFree_of_freshPath? {suffix : String} {file : Path} (fresh : m.freshPath? fs suffix = some file) :
    isFree fs file = true := List.find?_some fresh

theorem Leaves.refl (m : Materializer) (uri : String) (fs : FileSystem) : m.Leaves uri fs fs where
  workingDirectory := rfl
  clear _ := isFree_of_freshPath?
  kept _ _ := .inl

/-- All that was there is kept where the path of the booster does not step upward. -/
theorem Leaves.kept_of_noUp {p : Path} (leaves : m.Leaves uri fs fs')
    (resolved : m.store.resolve (joinUri uri fileName) = .ok p) (noUp : Files.dotDot ∉ Files.splitSlashes p.bytes)
    {k : Location} {x : Node} (node : fs.node? k = some x) : fs'.node? k = some x := by
  refine (leaves.kept k x node).resolve_right ?_
  rintro ⟨p', resolved', -, upward, -⟩
  obtain rfl := Except.ok.inj (resolved.symm.trans resolved')
  exact upward (Files.FileSystem.grounded_of_noUp noUp)

/-- What a copy out of the temporary file changes, saving changes, and nothing else. -/
theorem leaves_of_copyPath {here p : Path} (sound : fs.Sound)
    (fresh : m.freshPath? fs ".json" = some ((m.stagingRoot fs).child (temporaryName ".json" n)))
    (place : fs.Place (m.stagingRoot fs) d (temporaryName ".json" n))
    (free : fs.node? (d ++ [temporaryName ".json" n]) = none) (bytes : List UInt8)
    (resolved : m.store.resolve (joinUri uri fileName) = .ok p) (file : (holding fs d n bytes).isFile here = true)
    (absent : (holding fs d n bytes).present p = false) :
    m.Leaves uri fs (cleared ((m.stagingRoot fs).child (temporaryName ".json" n))
      (Store.copyPath here p (holding fs d n bytes)).2) := by
  obtain ⟨staged, stocked⟩ := staged_holding sound place free bytes
  obtain ⟨extended, sound', changes⟩ := Store.copyPath_changes staged.sound file p
  generalize (Store.copyPath here p (holding fs d n bytes)).2 = fs₁ at extended sound' changes
  -- The temporary file is still a file, and nothing but that file is taken away.
  obtain ⟨x, there, like⟩ := extended.toGrown.node _ _ staged.file
  obtain ⟨left, rfl⟩ : ∃ left, x = .file left := by
    cases x with
    | file left => exact ⟨left, rfl⟩
    | _ => cases like
  have place' := staged.place.grown extended.toGrown
  have off : d ≠ d ++ [temporaryName ".json" n] := by simp
  have rest := fun k (ne : k ≠ d ++ [temporaryName ".json" n]) =>
    (Files.FileSystem.node?_erase sound' there k).trans (if_neg ne)
  have working : fs₁.workingDirectory = fs.workingDirectory :=
    extended.toGrown.workingDirectory.trans stocked.workingDirectory
  rw [cleared, place'.remove there]
  refine ⟨working, fun file' fresh' => ?_, fun k x node => ?_⟩
  · obtain rfl := Option.some.inj (fresh.symm.trans fresh')
    have cleared : (fs₁.erase (d ++ [temporaryName ".json" n])).Place (m.stagingRoot fs) d (temporaryName ".json" n) :=
      ⟨place'.leads.without there off rest rfl, (rest d off).trans place'.directory, place.segment, place.short,
        place.fine⟩
    have gone : (fs₁.erase (d ++ [temporaryName ".json" n])).node? (d ++ [temporaryName ".json" n]) = none :=
      (Files.FileSystem.node?_erase sound' there _).trans (if_pos rfl)
    rw [isFree, cleared.locate false (by simp), gone]
  · have other : k ≠ d ++ [temporaryName ".json" n] := by
      rintro rfl
      simp [free] at node
    have node' : (holding fs d n bytes).node? k = some x := by rw [node?_holding, if_neg other, node]
    obtain kept | ⟨reaches, upward⟩ := changes k x node'
    · exact .inl ((rest k other).trans kept)
    · refine .inr ⟨p, resolved, ?_, fun grounded => upward absent (grounded.grown stocked.toGrown),
        reaches.without there other rest rfl⟩
      cases here' : fs.present p with
      | false => rfl
      | true => exact absurd (Files.FileSystem.present_grown stocked.toGrown here') (by simp [absent])

/-- **What staging leaves.** Loading leaves the file system as it was, however it ends. So does saving where something
is at the path of the booster already, and then it does not succeed. However saving ends, the temporary file is gone and
everything that was there is as it was, with one exception: a path that leads nowhere, because it steps upward from a
directory that is not there, leads somewhere as soon as that directory is made for it, and a file that is there is
overwritten. -/
theorem staging_leaves (m : Materializer) (b : Booster) (uri : String) (sound : fs.Sound) :
    (m.load uri fs).2 = fs ∧
      m.Leaves uri fs (m.save b uri fs).2 ∧
        ∀ p, m.store.resolve (joinUri uri fileName) = .ok p → fs.present p = true →
          ∃ e, m.save b uri fs = (.error e, fs) := by
  refine ⟨load_restores m sound uri, ?_⟩
  cases fresh : m.freshPath? fs ".json" with
  | none =>
    have refused : m.save b uri fs = (.error .staging, fs) := by rw [save, fresh]
    exact ⟨refused ▸ .refl m uri fs, fun p _ _ => ⟨_, refused⟩⟩
  | some file =>
    obtain ⟨n, d, rfl, place, free⟩ := place_of_freshPath? (by decide) fresh
    have restored := cleared_holding sound place free b.toBytes
    obtain ⟨-, stocked⟩ := staged_holding sound place free b.toBytes
    rw [save_of_fresh b uri fresh place free]
    simp only
    split
    · rw [restored]
      exact ⟨.refl m uri fs, fun p _ _ => ⟨_, rfl⟩⟩
    · next source spelled =>
      rcases m.store.copy_cases source (joinUri uri fileName) false (holding fs d n b.toBytes) with
        ⟨text, refused, -⟩ | ⟨here, p, -, resolved, ⟨-, refused⟩ | ⟨isFile, ⟨-, -, refused⟩ | ⟨goes, same⟩⟩⟩
      · rw [refused, restored]
        exact ⟨.refl m uri fs, fun p _ _ => ⟨_, rfl⟩⟩
      · rw [refused, restored]
        exact ⟨.refl m uri fs, fun p _ _ => ⟨_, rfl⟩⟩
      · rw [refused, restored]
        exact ⟨.refl m uri fs, fun p _ _ => ⟨_, rfl⟩⟩
      · have absent : (holding fs d n b.toBytes).present p = false := by simpa using goes
        rw [same]
        refine ⟨leaves_of_copyPath sound fresh place free b.toBytes resolved isFile absent, ?_⟩
        intro p' resolved' there
        obtain rfl := Except.ok.inj (resolved.symm.trans resolved')
        exact absurd (Files.FileSystem.present_grown stocked.toGrown there) (by simp [absent])

theorem sound_shelved (bytes : List UInt8) : (shelf (shelved bytes)).Sound := by
  refine Files.FileSystem.sound_of_entries ?_ (by simp [shelf]) ?_
  · simp only [shelf, shelved, List.mem_cons, List.not_mem_nil, or_false, forall_eq_or_imp, forall_eq, fileName,
      Text.utf8_eq_encode]
    decide
  · simp only [shelf, shelved, List.mem_cons, List.not_mem_nil, or_false, forall_eq_or_imp, forall_eq]
    refine ⟨?_, ?_, ?_⟩ <;> cbv

/-- A booster that is kept at `/m` stays there when others are saved, at `/m` or elsewhere. -/
theorem staging_leaves_shelved :
    (shelf (shelved [1])).Sound ∧ (rooted.load "/m" (shelf (shelved [1]))).2 = shelf (shelved [1]) ∧
      (∃ e, rooted.save stump "/m" (shelf (shelved [1])) = (.error e, shelf (shelved [1]))) ∧
        ∀ k x, (shelf (shelved [1])).node? k = some x →
          (rooted.save stump "/n" (shelf (shelved [1]))).2.node? k = some x := by
  obtain ⟨loaded, -, refused⟩ := staging_leaves rooted stump "/m" (sound_shelved [1])
  obtain ⟨-, leaves, -⟩ := staging_leaves rooted stump "/n" (sound_shelved [1])
  have uri : joinUri "/m" fileName = "/m/model.json" := by cbv
  have uri' : joinUri "/n" fileName = "/n/model.json" := by cbv
  have there : (shelf (shelved [1])).present (.ofText "/m/model.json") = true := by cbv
  have noUp : Files.dotDot ∉ Files.splitSlashes (Path.ofText "/n/model.json").bytes := by decide +kernel
  refine ⟨sound_shelved [1], loaded, refused _ ?_ there, fun k x => leaves.kept_of_noUp ?_ noUp⟩
  · rw [uri, resolve_rooted _ (by decide) (by decide)]
  · rw [uri', resolve_rooted _ (by decide) (by decide)]

/-- What is in the root: a booster, and what else there is. -/
def bare (bytes : List UInt8) (entries : List (Location × Node)) : FileSystem :=
  shelf (([Text.utf8 fileName], .file bytes) :: entries)

/-- **A booster in the root is overwritten** by way of a directory that is not there. -/
theorem save_overwrites :
    (bare [1] []).node? [Text.utf8 fileName] = some (.file [1]) ∧ stump.toBytes ≠ [1] ∧
      rooted.save stump "/missing/.." (bare [1] []) =
        (.ok (), bare stump.toBytes [([Text.utf8 "missing"], .directory)]) := by
  refine ⟨by cbv, by decide +kernel, ?_⟩
  unfold save deliver Booster.saveTo
  generalize stump.toBytes = bytes
  have fresh : rooted.freshPath? (bare [1] []) ".json" = some (.ofText "/s/zenml-temp-0.json") := by cbv
  have emptied : (bare [1] []).write (.ofText "/s/zenml-temp-0.json") [] = .ok (bare [1] [staged []]) := by cbv
  have written : (bare [1] [staged []]).write (.ofText "/s/zenml-temp-0.json") bytes =
      .ok (bare [1] [staged bytes]) := by cbv
  have spelled : (Path.ofText "/s/zenml-temp-0.json").text? = some "/s/zenml-temp-0.json" := Text.ofUtf8?_utf8 _
  have uri : joinUri "/missing/.." fileName = "/missing/../model.json" := by cbv
  have copied : rooted.store.copy "/s/zenml-temp-0.json" "/missing/../model.json" false (bare [1] [staged bytes]) =
      (.ok (), bare bytes [staged bytes, ([Text.utf8 "missing"], .directory)]) := by
    rw [Store.copy, resolve_rooted _ (by decide) (by decide), resolve_rooted _ (by decide) (by decide)]
    cbv
  simp only [fresh, emptied, written, spelled, uri, copied]
  cbv

end Boosting.Materializer

end ModelDepot
