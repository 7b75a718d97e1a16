import Mathlib
import ModelDepot.Proofs.Artifact.Others
import ModelDepot.Proofs.Artifact.Refinement
import ModelDepot.Proofs.Deployment.Handles
import ModelDepot.Proofs.Deployment.Placing

/-! # Handles in a folder are found again

A handle is kept twice in its artifact, and in the metadata it is one level deeper than in the payload. What is
written may nest as deep as it does, what is read may not: a handle that nests just too deep to be read in the
metadata is kept, and then it is not found and the handles are no longer listed.
-/

namespace ModelDepot

open Artifact (Folder)
open Files (FileSystem Location Name Path)
open Json (Members)

namespace Deployment

namespace Order

variable {σ : Type} {o : Order σ} {f : Folder} {w : Surroundings (σ × FileSystem)} {h : Service}

theorem depth_unlogged (imaged : o.config.Imaged) : o.unlogged.toJson.depth = o.config.imageDepth + 3 := by
  have payload : o.payload.depth = o.config.imageDepth + 2 := Service.depth_toJson (h := o.handle) imaged
  simp only [unlogged, StoredArtifact.toJson, Artifact.Version.toJson, Artifact.Kind.toJson, Json.depth,
    Json.membersDepth, payload]
  omega

theorem depth_logged (imaged : o.config.Imaged) : o.logged.toJson.depth = o.config.imageDepth + 4 := by
  have payload : o.payload.depth = o.config.imageDepth + 2 := Service.depth_toJson (h := o.handle) imaged
  simp only [logged, unlogged, StoredArtifact.addMetadata, StoredArtifact.toJson, Artifact.Version.toJson,
    Artifact.Kind.toJson, Members.extend, List.foldl_cons, List.foldl_nil, Members.insert, Json.depth,
    Json.membersDepth, payload]
  omega

/-! ## Finding handles in a folder -/

section

variable {settings : Settings} {api : Api σ} {clock : Clock} {version : String} {world : σ × FileSystem}

theorem find_of_load {a : StoredArtifact}
    (loaded : (Registry.folder f).load Deployer.artifactName version world.2 = .ok a)
    (read : Service.decoder.ofJson? a.payload = some h) :
    (Deployer.between settings api (.folder f) clock).find version world = .ok h := by
  have loaded : (Deployer.between settings api (.folder f) clock).registry.load Deployer.artifactName version world =
      .ok a := loaded
  unfold Deployer.find
  simp only [loaded, read]

theorem load_of_find (found : (Deployer.between settings api (.folder f) clock).find version world = .ok h) :
    ∃ a, (Registry.folder f).load Deployer.artifactName version world.2 = .ok a ∧
      Service.decoder.ofJson? a.payload = some h := by
  unfold Deployer.find at found
  split at found
  · simp at found
  next a loaded =>
  split at found
  · next g read => exact ⟨a, loaded, Except.ok.inj found ▸ read⟩
  · simp at found

theorem exists_mapM_ok_iff {α β ε : Type} {g : α → Except ε β} {xs : List α} :
    (∃ ys, xs.mapM g = .ok ys) ↔ ∀ x ∈ xs, ∃ y, g x = .ok y := by
  induction xs with
  | nil => simp [pure, Except.pure]
  | cons x xs ih =>
    rw [List.forall_mem_cons, ← ih, List.mapM_cons]
    cases g x with
    | error e => simp [bind, Except.bind]
    | ok y =>
      cases xs.mapM g with
      | error e => simp [bind, Except.bind]
      | ok ys => simp [bind, Except.bind, pure, Except.pure]

theorem findAll_iff :
    (∃ hs, (Deployer.between settings api (.folder f) clock).findAll world = .ok hs) ↔
      ∃ vs, (Registry.folder f).versions Deployer.artifactName world.2 = .ok vs ∧
        ∀ v ∈ vs, ∃ h, (Deployer.between settings api (.folder f) clock).find v.version world = .ok h := by
  have asked : (Deployer.between settings api (.folder f) clock).registry.versions Deployer.artifactName world =
      (Registry.folder f).versions Deployer.artifactName world.2 := rfl
  unfold Deployer.findAll
  rw [asked]
  cases (Registry.folder f).versions Deployer.artifactName world.2 with
  | error e => simp
  | ok vs => simp [exists_mapM_ok_iff]

end

/-! ## What an order leaves in a folder -/

def path (o : Order σ) (f : Folder) : Path := f.pathOf Deployer.artifactName o.version

/-- One file more is in the folder: it holds the handle of an order twice. -/
structure Left (o : Order σ) (f : Folder) (fs fs' : FileSystem) : Prop where
  free : fs.present (o.path f) = false
  read : fs'.read (o.path f) = .ok o.logged.toJson.toIndentedBytes
  passing : fs.Passing (o.path f) fs'
  sound : fs.Sound → fs'.Sound

/-- An order that can be read back: its configuration is one that callers can have, its times have dates, and the
numbers in its custom image are written as texts that they are read back from. -/
structure Lasting (o : Order σ) : Prop where
  made : o.config.Made
  begun : o.moments.made.OnCalendar
  kept : o.moments.kept.OnCalendar
  reread : o.config.Reread

theorem Lasting.storable (lasting : o.Lasting) : o.unlogged.Storable ∧ o.logged.Storable := by
  have payload : o.payload.ReadBack := Service.readBack_toJson (h := o.handle) lasting.reread
  have unlogged : o.unlogged.Storable := ⟨lasting.kept, payload, .nil⟩
  refine ⟨unlogged, unlogged.addMetadata ⟨?_, ?_⟩⟩
  · simpa [Json.Tidy, Json.TidyMembers, Members.Sorted] using payload.tidy
  · simpa [Json.Numbers, Json.NumbersMembers] using payload.numbers

theorem Lasting.left (lasting : o.Lasting) (placed : (o.place (.folder f) w).result = .ok h) :
    o.Left f w.world.2 (o.place (.folder f) w).surroundings.world.2 := by
  obtain ⟨-, v, fs, saved, logged⟩ := kept_of_place placed
  obtain ⟨-, free, a, decoded, read⟩ := Folder.read_of_logged saved logged
  -- The artifact is read before it is logged, and not after that.
  have same : o.unlogged = a := by
    rw [show StoredArtifact.mk _ o.payload [] = o.unlogged from rfl, lasting.storable.1.ofBytes?_eq] at decoded
    split at decoded
    · exact Option.some.inj decoded
    · simp at decoded
  rw [← same] at read
  exact ⟨free, read, Folder.passing_logged saved logged, Folder.sound_logged saved logged⟩

/-- The custom image nests at least four levels less than what can be read. -/
def Shallow (o : Order σ) : Prop := o.config.imageDepth + 4 ≤ Json.Document.maxDepth

instance (o : Order σ) : Decidable o.Shallow := inferInstanceAs (Decidable (_ ≤ _))

namespace Left

variable {world world' : σ × FileSystem} {settings : Settings} {api : Api σ} {clock : Clock} {base : Path}
  {b : Location} {names : List Name} (left : o.Left f world.2 world'.2) (lasting : o.Lasting)

include left lasting

theorem get_eq :
    ((Folder.get (o.path f)).run world'.2).1 = if o.Shallow then .ok o.logged else .error .unreadable := by
  rw [Folder.get_of_read left.read, lasting.storable.2.ofBytes?_eq, depth_logged lasting.made.imaged]
  by_cases shallow : o.Shallow
  · rw [if_pos shallow, if_pos (show o.config.imageDepth + 4 ≤ _ from shallow)]
  · rw [if_neg shallow, if_neg (show ¬ o.config.imageDepth + 4 ≤ _ from shallow)]

variable (settings api clock) in
/-- **The handle of an order is found again**, as it was when it was kept, exactly if the custom image is shallow. -/
theorem find_eq : (Deployer.between settings api (.folder f) clock).find o.version world' =
    if o.Shallow then .ok o.handle else .error (.artifact .unreadable) := by
  have loaded : (Deployer.between settings api (.folder f) clock).registry.load Deployer.artifactName o.version world' =
      if o.Shallow then .ok o.logged else .error .unreadable := by
    rw [← left.get_eq lasting, Folder.get_of_read left.read]
    exact Folder.load_of_read (Deployer.requireSegments_versionOf o.model) left.read
  have read : Service.decoder.ofJson? o.logged.payload = some o.handle :=
    Service.ofJson?_toJson (h := o.handle) (lasting.made.renamed _).imaged lasting.begun
  unfold Deployer.find
  rw [loaded]
  by_cases shallow : o.Shallow
  · simp only [if_pos shallow, read]
  · simp only [if_neg shallow]

theorem findAll_of_shallow (shallow : o.Shallow) (standing : f.Standing base b names world.2)
    (before : ∃ hs, (Deployer.between settings api (.folder f) clock).findAll world = .ok hs) :
    ∃ hs, (Deployer.between settings api (.folder f) clock).findAll world' = .ok hs := by
  have require : Artifact.requireSegments Deployer.artifactName o.version = .ok () :=
    Deployer.requireSegments_versionOf o.model
  have got := left.get_eq lasting
  have found := left.find_eq settings api clock lasting
  rw [if_pos shallow] at got found
  rw [findAll_iff] at before ⊢
  refine standing.versions require left.passing (left.sound standing.sound) (Folder.present_of_read left.read)
    (fun v once => ?_) ⟨o.logged, got, o.handle, found⟩ before
  obtain ⟨g, once⟩ := once
  obtain ⟨a, loaded, read⟩ := load_of_find once
  exact ⟨g, find_of_load (standing.load require left.passing left.free loaded) read⟩

theorem findAll_of_deep (deep : ¬ o.Shallow) (standing : f.Standing base b names world.2) (hs : List Service) :
    (Deployer.between settings api (.folder f) clock).findAll world' ≠ .ok hs := by
  intro all
  have got := left.get_eq lasting
  rw [if_neg deep] at got
  obtain ⟨vs, listed, -⟩ := findAll_iff.mp ⟨hs, all⟩
  exact (standing.extended left.passing.toExtended (left.sound standing.sound)).versions_ne_ok
    (Deployer.requireSegments_versionOf o.model) (Folder.present_of_read left.read) got vs listed

end Left

/-- **A handle is found again after its order succeeded**, in a folder of whatever file system, if its custom image
is shallow: it has the model and the configuration that were returned. All handles are found then if they were found
before. If the custom image nests deeper, the handle is not found although the order succeeded, and handles are no
longer listed at all. This is said of orders that can be read back, and of the list in a folder without links, which
the order may be the first to make. -/
theorem found_of_place (o : Order σ) (lasting : o.Lasting) (f : Folder) (w : Surroundings (σ × FileSystem)) (h : Service)
    (placed : (o.place (.folder f) w).result = .ok h) :
    let after := (o.place (.folder f) w).surroundings.world
    ∀ settings api clock, let d := Deployer.between settings api (.folder f) clock
      (o.Shallow →
        (∃ g, d.find o.version after = .ok g ∧ g.model = h.model ∧ g.config = h.config) ∧
          ∀ base b names, f.Standing base b names w.world.2 →
            (∃ hs, d.findAll w.world = .ok hs) → ∃ hs, d.findAll after = .ok hs) ∧
      (¬ o.Shallow →
        d.find o.version after = .error (.artifact .unreadable) ∧
          ∀ base b names, f.Standing base b names w.world.2 → ∀ hs, d.findAll after ≠ .ok hs) := by
  intro after settings api clock d
  obtain ⟨same, -⟩ := kept_of_place placed
  have left := lasting.left placed
  have found := left.find_eq settings api clock lasting
  refine ⟨fun shallow => ?_, fun deep => ?_⟩
  · rw [if_pos shallow] at found
    exact ⟨⟨o.handle, found, same.model.symm, same.config.symm⟩,
      fun base b names => left.findAll_of_shallow lasting shallow⟩
  · rw [if_neg deep] at found
    exact ⟨found, fun base b names => left.findAll_of_deep lasting deep⟩

/-! ## Nested images -/

/-- Arrays one in the other. -/
def arrays : Nat → Json
  | 0 => .bool true
  | n + 1 => .array [arrays n]

theorem depth_arrays (n : Nat) : (arrays n).depth = n := by
  induction n with
  | zero => simp [arrays, Json.depth]
  | succ n ih => simp [arrays, Json.depth, Json.itemsDepth, ih]

theorem plain_arrays (n : Nat) : (arrays n).Tidy ∧ arrays n ≠ .null ∧ (arrays n).Numbers Json.Number.Rereads := by
  induction n with
  | zero => simp [arrays, Json.Tidy, Json.Numbers]
  | succ n ih => simp [arrays, Json.Tidy, Json.TidyItems, Json.Numbers, Json.NumbersItems, ih.1, ih.2.2]

/-- An order whose custom image is arrays one in the other, and which does not wait for its endpoint. -/
def nested (n : Nat) : Order Bool :=
  { first with config := { first.config with customImage := some (arrays n) }, timeout := .ofSeconds 0 }

theorem imaged_nested (n : Nat) : (nested n).config.Imaged := by
  rintro _ ⟨⟩
  exact ⟨(plain_arrays n).1, (plain_arrays n).2.1⟩

theorem lasting_nested (n : Nat) : (nested n).Lasting where
  made := .parsed (EndpointConfig.read_toJson (imaged_nested n) _ (Nat.le_refl _))
  begun := show Timestamp.OnCalendar ⟨0, 0⟩ from ⟨by decide, .inl (by decide)⟩
  kept := show Timestamp.OnCalendar ⟨0, 0⟩ from ⟨by decide, .inl (by decide)⟩
  reread := by
    rintro _ ⟨⟩
    exact (plain_arrays n).2.2

/-- The folder `/r`. -/
def cabinet : Folder := ⟨⟨[0x2f, 0x72]⟩⟩

/-- Nothing is there yet, not even the folder. -/
def bare : Surroundings (Bool × FileSystem) := ⟨(false, ⟨[], []⟩), .cleared⟩

theorem standing_cabinet : cabinet.Standing .root [] [[0x72]] bare.world.2 where
  sound := Files.FileSystem.sound_of_entries (by decide) (by decide) (by decide)
  root := rfl
  segments := by
    rw [List.forall_mem_singleton]
    exact ⟨by decide, by decide, by decide, by decide⟩
  leads := ⟨Files.maxLinks, .idle (by decide) (.inl rfl) (.idle (by decide) (.inl rfl) (.stay _ _))⟩
  directory := rfl
  noLinks := by
    intro below n ne _ node
    simp [bare, FileSystem.node?, ne] at node

/-- The file of the first handle. -/
def firstFile : Path := cabinet.pathOf Deployer.artifactName (Deployer.versionOf zeroUuid)

theorem save_bare (n : Nat) (payload : Json) (options : Artifact.SaveOptions) (now : Timestamp) :
    (cabinet.save Deployer.artifactName (nested n).version payload options now).run bare.world.2 =
      (cabinet.save Deployer.artifactName (nested n).version payload options now).run Registry.emptyFolder := by
  rw [show (nested n).version = Deployer.versionOf zeroUuid from rfl]
  have missing : FileSystem.present bare.world.2 firstFile = false := by cbv
  have free : Registry.emptyFolder.present firstFile = false := by cbv
  have made : FileSystem.makeDirectories bare.world.2 (firstFile.parent?.getD firstFile) =
      Registry.emptyFolder.makeDirectories (firstFile.parent?.getD firstFile) := by cbv
  simp only [Folder.run_save, Deployer.requireSegments_versionOf, ← firstFile.eq_def, missing, free, Bool.false_eq_true,
    if_false, Folder.set, Files.Program.run_bind, Files.Program.run_makeDirectories, made]

theorem place_nested (n : Nat) (h : n + 3 ≤ Json.Document.maxDepth) :
    ∃ h, ((nested n).place (.folder cabinet) bare).result = .ok h := by
  have shelf : cabinet.Shelf [[0x72]] (cabinet.held? []) Registry.emptyFolder :=
    Folder.shelf_empty Registry.leads_emptyFolder (by decide) fun _ => Registry.nothing_emptyFolder
  have admits : cabinet.Admits (Deployer.artifactName, (nested n).version) := by
    refine ⟨Deployer.requireSegments_versionOf _, ?_⟩
    rw [show (nested n).version = Deployer.versionOf zeroUuid from rfl]
    cbv
  have readable : (nested n).unlogged.toJson.depth ≤ Json.Document.maxDepth := by
    rw [depth_unlogged (imaged_nested n), show (nested n).config.imageDepth = (arrays n).depth from rfl, depth_arrays]
    exact h
  obtain ⟨fs₁, fs₂, saved, logged⟩ := shelf.save_log admits (by simp [Folder.held?, Artifact.kept?])
    (lasting_nested n).storable.1 readable [(Deployer.artifactName, (nested n).payload)]
  have kept : ((nested n).deployer (.folder cabinet)).keep (nested n).version (nested n).handle (nested n).moments.kept
      bare.world = (.ok (), (false, fs₂)) := by
    unfold Deployer.keep
    simp only [deployer, Deployer.between, Registry.beside, Registry.folder]
    rw [show (nested n).handle.toJson.sorted = (nested n).payload from rfl, (save_bare n _ _ _).trans saved]
    simp only [logged]
    rfl
  have entered : ((nested n).deployer (.folder cabinet)).enter bare.environment =
      (.ok Session.prompt.credentials, .exporting Session.prompt.credentials) := rfl
  rw [place, deploy_eq (nested n) _ _ entered, kept]
  exact ⟨_, rfl⟩

theorem findAll_bare (settings : Settings) (api : Api Bool) (clock : Clock) :
    ∃ hs, (Deployer.between settings api (.folder cabinet) clock).findAll bare.world = .ok hs := by
  rw [findAll_iff]
  refine (Folder.versions_iff (by decide) _ _).mpr (.inl ?_)
  cbv

theorem shallow_nested (n : Nat) : (nested n).Shallow ↔ n ≤ 123 := by
  rw [Shallow, show (nested n).config.imageDepth = (arrays n).depth from rfl, depth_arrays, Json.Document.maxDepth]
  omega

theorem found_of_place_nested :
    let after := ((nested 3).place (.folder cabinet) bare).surroundings.world
    (nested 3).Lasting ∧ ∃ h, ((nested 3).place (.folder cabinet) bare).result = .ok h ∧
      ∀ settings api clock, let d := Deployer.between settings api (.folder cabinet) clock
        (∃ g, d.find (nested 3).version after = .ok g ∧ g.model = h.model ∧ g.config = h.config) ∧
          ∃ hs, d.findAll after = .ok hs := by
  intro after
  obtain ⟨h, placed⟩ := place_nested 3 (by decide)
  refine ⟨lasting_nested 3, h, placed, fun settings api clock => ?_⟩
  have found := (found_of_place (nested 3) (lasting_nested 3) cabinet bare h placed settings api clock).1
    ((shallow_nested 3).mpr (by decide))
  exact ⟨found.1, found.2 .root [] [[0x72]] standing_cabinet (findAll_bare settings api clock)⟩

/-- A handle that nests one level too deep is kept and not found, and handles are no longer listed. -/
theorem nested_lost :
    let after := ((nested 124).place (.folder cabinet) bare).surroundings.world
    (nested 124).config.Made ∧ (∃ h, ((nested 124).place (.folder cabinet) bare).result = .ok h) ∧
      ∀ settings api clock, let d := Deployer.between settings api (.folder cabinet) clock
        d.find (nested 124).version after = .error (.artifact .unreadable) ∧
          (∃ hs, d.findAll bare.world = .ok hs) ∧ ∀ hs, d.findAll after ≠ .ok hs := by
  intro after
  have lasting := lasting_nested 124
  obtain ⟨h, placed⟩ := place_nested 124 (by decide)
  have left := lasting.left placed
  have deep : ¬ (nested 124).Shallow := by rw [shallow_nested]; decide
  refine ⟨lasting.made, ⟨h, placed⟩, fun settings api clock => ⟨?_, findAll_bare settings api clock, ?_⟩⟩
  · rw [left.find_eq settings api clock lasting, if_neg deep]
  · exact left.findAll_of_deep lasting deep standing_cabinet

end Order

end Deployment

end ModelDepot
