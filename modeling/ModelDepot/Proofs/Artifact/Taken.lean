import ModelDepot.Proofs.Artifact.Folder
import ModelDepot.Proofs.Artifact.Labels
import ModelDepot.Proofs.Files.Reaching

/-! # Versions are saved once

A version of a name that was saved is taken: saving it again is refused, whatever has been saved and logged
since. So the versions that a registry accepted are all different.
-/

namespace ModelDepot

open Files (FileSystem Location Name Segment Spot)

open Artifact (Saved label requireSegments)

namespace Registry

variable {ρ : Type} {reg : Registry ρ} {name : String} {Holds : List Saved → ρ → Prop} {Taken : String → ρ → Prop}

/-- Saving a version again is refused and changes nothing. -/
def Refuses (reg : Registry ρ) (name version : String) (r : ρ) : Prop :=
  ∀ payload options now,
    reg.save name version payload options now r = (.error (.alreadyExists (label name version)), r)

/-- A version is taken once it was saved. It stays so, and then it is refused. -/
structure Barring (reg : Registry ρ) (name : String) (Holds : List Saved → ρ → Prop) (Taken : String → ρ → Prop) :
    Prop where
  refuses : ∀ {version r}, Taken version r → reg.Refuses name version r
  accepted : ∀ {saved r version payload options now v r'}, Holds saved r →
    reg.save name version payload options now r = (.ok v, r') → Taken version r'
  kept : ∀ {taken r} version payload options now, Taken taken r →
    Taken taken (reg.save name version payload options now r).2
  logged : ∀ {taken r} version metadata, Taken taken r → Taken taken (reg.log name version metadata r).2

/-- What was saved is held, and every version of it is taken by one save. -/
structure Claimed (Holds : List Saved → ρ → Prop) (Taken : String → ρ → Prop) (saved : List Saved) (r : ρ) : Prop where
  holds : Holds saved r
  taken : ∀ s ∈ saved, Taken s.version r
  distinct : saved.Pairwise fun s t => s.version ≠ t.version

theorem Keeping.claimed (keeping : reg.Keeping name Holds) (barring : reg.Barring name Holds Taken) :
    reg.Keeping name (Claimed Holds Taken) where
  accepted := by
    intro saved r version payload options now v r' claimed h
    have after : r' = (reg.save name version payload options now r).2 := by rw [h]
    constructor
    · exact keeping.accepted claimed.holds h
    · intro s hs
      rcases List.mem_append.mp hs with hs | hs
      · rw [after]
        exact barring.kept version payload options now (claimed.taken s hs)
      · obtain rfl := List.mem_singleton.mp hs
        exact barring.accepted claimed.holds h
    · rw [List.pairwise_append]
      refine ⟨claimed.distinct, List.pairwise_singleton _ _, ?_⟩
      intro s hs t ht same
      obtain rfl := List.mem_singleton.mp ht
      -- A version that was saved before would have been refused.
      have refused := barring.refuses (claimed.taken s hs) payload options now
      rw [same, h] at refused
      simp at refused
  refused := by
    intro saved r version payload options now e r' claimed h
    have after : r' = (reg.save name version payload options now r).2 := by rw [h]
    refine ⟨keeping.refused claimed.holds h, fun s hs => ?_, claimed.distinct⟩
    rw [after]
    exact barring.kept version payload options now (claimed.taken s hs)
  logged := by
    intro saved r version metadata claimed
    exact ⟨keeping.logged version metadata claimed.holds,
      fun s hs => barring.logged version metadata (claimed.taken s hs), claimed.distinct⟩
  loaded := fun claimed h => keeping.loaded claimed.holds h

end Registry

/-! ## In memory -/

namespace Artifact.Memory

variable {m : Memory} {name : String}

def Taken (name version : String) (m : Memory) : Prop :=
  requireSegments name version = .ok () ∧ (m.get? (label name version)).isSome

theorem barring (name : String) : Registry.memory.Barring name (Holds name) (Taken name) where
  refuses := by
    rintro version m ⟨require, there⟩ payload options now
    simp [Registry.memory, save, require, there]
  accepted := by
    intro saved m version payload options now v m' holds h
    simp only [Registry.memory, save] at h
    split at h
    · simp at h
    next require =>
    split at h
    · simp at h
    next free =>
    obtain ⟨-, rfl⟩ := Prod.mk.inj h
    refine ⟨require, ?_⟩
    rw [get?_add _ _ _ _ (Option.not_isSome_iff_eq_none.mp free), if_pos rfl]
    rfl
  kept := by
    rintro taken m version payload options now ⟨require, there⟩
    refine ⟨require, ?_⟩
    simp only [Registry.memory, save]
    split
    · exact there
    split
    · exact there
    next free =>
    rw [get?_add _ _ _ _ (Option.not_isSome_iff_eq_none.mp free)]
    split
    · rfl
    · exact there
  logged := by
    rintro taken m version metadata ⟨require, there⟩
    refine ⟨require, ?_⟩
    simp only [Registry.memory, log]
    split
    · rw [get?_modify]
      split
      · rwa [Option.isSome_map]
      · exact there
    · exact there

end Artifact.Memory

/-! ## In a folder -/

namespace Artifact.Folder

variable {f : Folder} {name version : String} {fs fs' : FileSystem} {saved : List Saved} {a : StoredArtifact}

def Taken (f : Folder) (name version : String) (fs : FileSystem) : Prop :=
  requireSegments name version = .ok () ∧ fs.present (f.pathOf name version) = true

theorem Holds.present (holds : Holds f name saved fs) (require : requireSegments name version = .ok ())
    {bytes : List UInt8} (written : fs.write (f.pathOf name version) bytes = .ok fs') :
    fs'.present (f.pathOf name version) = true := by
  have segments := segments_of_require require
  have some' : namesOf name version ≠ [] := List.cons_ne_nil _ _
  -- Nothing but directories and files is below the folder.
  have solid : ∀ spot, fs.locate true (f.pathOf name version) = .ok spot →
      ∃ l, fs.Leads f.root l ∧ spot.location = l ++ namesOf name version ∧
        ∀ ns n, ns ≠ [] → ns <+: namesOf name version → fs.node? (l ++ ns) = some n → ¬ n.IsLink ∧ n ≠ .other := by
    intro spot found
    obtain ⟨l, leads, -, place⟩ := holds.locate require found
    refine ⟨l, leads, place, fun ns n ne _ node => ?_⟩
    rcases holds fs (.refl fs) l leads ns n ne node with rfl | ⟨b, s, -, -, rfl, -⟩ <;> simp [Files.Node.IsLink]
  obtain ⟨l, spot, before, rfl⟩ : ∃ l spot, (fs.writeSpot (f.pathOf name version) = .ok spot ∧ spot.location = l ∧
      (fs.node? l = none ∨ ∃ old, fs.node? l = some (.file old))) ∧ fs' = fs.put l (.file bytes) := by
    rcases FileSystem.write_eq written with ⟨l, free | ⟨old, file⟩, rfl⟩ | ⟨l, n, spot, odd, rfl⟩
    · exact ⟨l, _, ⟨free, rfl, .inl (FileSystem.holds_of_writeSpot free).2⟩, rfl⟩
    · exact ⟨l, _, ⟨file, rfl, .inr ⟨old, FileSystem.holds_of_writeSpot file⟩⟩, rfl⟩
    · obtain ⟨there, -, rfl, allowed⟩ := solid _ (FileSystem.locate_of_writeSpot spot)
      have := allowed _ n some' (List.prefix_refl _) (FileSystem.holds_of_writeSpot spot)
      rcases odd with other | link
      · exact absurd other this.2
      · exact absurd link this.1
  obtain ⟨found, rfl, before⟩ := before
  have located := FileSystem.locate_of_writeSpot found
  obtain ⟨there, leads, place, allowed⟩ := solid spot located
  rw [place] at before ⊢
  have grown : fs.Grown (fs.put (there ++ namesOf name version) (.file bytes)) :=
    FileSystem.grown_put (by simp [namesOf]) before
  obtain ⟨left, here⟩ := leads.locate_below true some' segments
  obtain ⟨left', later⟩ := (leads.grown grown).locate_below true some' segments
  rw [pathOf_eq] at located
  have fine : (f.root.below (namesOf name version)).fault? = none := (FileSystem.follow_of_locate located).2.1
  rw [here, fine] at located
  rw [fine] at later
  have again := FileSystem.follow_put_segments left' bytes some' segments
    (fun ns n ne start node => (allowed ns n ne start node).1) before located
  rw [FileSystem.present, FileSystem.status, pathOf_eq, later, again]

theorem grown_save (f : Folder) (name version : String) (payload : Json) (options : SaveOptions) (now : Timestamp)
    (fs : FileSystem) : fs.Grown ((f.save name version payload options now).run fs).2 :=
  save_keeps (fun _ grown => grown.trans (FileSystem.furnished_makeDirectories _ _).grown)
    (fun _ _ _ grown written => grown.trans (FileSystem.extended_write written).toGrown) rfl (.refl fs) payload options now

theorem grown_log (f : Folder) (name version : String) (metadata : Json.Members) (fs : FileSystem) :
    fs.Grown ((f.log name version metadata).run fs).2 :=
  log_keeps (fun _ grown => grown.trans (FileSystem.furnished_makeDirectories _ _).grown)
    (fun _ _ _ grown written => grown.trans (FileSystem.extended_write written).toGrown) rfl (.refl fs) metadata

theorem barring (f : Folder) (name : String) : (Registry.folder f).Barring name (Holds f name) (f.Taken name) where
  refuses := by
    rintro version fs ⟨require, there⟩ payload options now
    simp [Registry.folder, run_save, require, there]
  accepted := by
    intro saved fs version payload options now v fs' holds h
    simp only [Registry.folder, run_save] at h
    split at h
    · simp at h
    next require =>
    split at h
    · simp at h
    rcases run_set (f.pathOf name version) ⟨Version.new name version options now, payload, []⟩ fs with
      ⟨-, fs₁, furnished, written⟩ | ⟨⟨e, failed⟩, -⟩
    · obtain ⟨-, rfl⟩ := Prod.mk.inj h
      exact ⟨require, (holds.furnished furnished).present require written⟩
    · simp [failed, Except.map] at h
  kept := fun version payload options now taken =>
    ⟨taken.1, FileSystem.present_grown (f.grown_save name version payload options now _) taken.2⟩
  logged := fun version metadata taken =>
    ⟨taken.1, FileSystem.present_grown (f.grown_log name version metadata _) taken.2⟩

end Artifact.Folder

/-- **A registry takes every version once**, from when it has nothing in it. -/
theorem Registry.Fresh.exclusive {ρ : Type} {reg : Registry ρ} {r : ρ} (fresh : Fresh reg r) (name : String) :
    ∃ Holds, reg.Keeping name Holds ∧ Holds [] r ∧
      ∀ saved r, Holds saved r →
        saved.Pairwise (fun s t => s.version ≠ t.version) ∧ ∀ s ∈ saved, reg.Refuses name s.version r := by
  cases fresh with
  | memory =>
    have barring := Artifact.Memory.barring name
    refine ⟨_, (Artifact.Memory.keeping name).claimed barring, ?_, fun saved r claimed => ?_⟩
    · exact ⟨Artifact.Memory.holds_empty name, by simp, .nil⟩
    · exact ⟨claimed.distinct, fun s hs => barring.refuses (claimed.taken s hs)⟩
  | folder f fs empty =>
    have barring := f.barring name
    refine ⟨_, (f.keeping name).claimed barring, ?_, fun saved r claimed => ?_⟩
    · exact ⟨empty.holds name, by simp, .nil⟩
    · exact ⟨claimed.distinct, fun s hs => barring.refuses (claimed.taken s hs)⟩

end ModelDepot
