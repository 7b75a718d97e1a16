import ModelDepot.Artifact.Folder
import ModelDepot.Proofs.Artifact.Keeping
import ModelDepot.Proofs.Artifact.Storing
import ModelDepot.Proofs.Files.Below
import ModelDepot.Proofs.Text.Utf8

/-! # A folder keeps what was saved

Below the folder of a registry there are only directories and the files of artifacts, so that a name and a
version lead to one place. A file is written as a whole, and what is read from it is what was written.
-/

namespace ModelDepot

open Files (FileSystem Location Name Node Path Program Segment Spot)
open Json (Copied)

namespace Artifact

/-! ## Names and versions -/

theorem segment_of_isSegment {s : String} (h : isSegment s = true) : Segment (Text.utf8 s) := by
  simp only [isSegment, Bool.and_eq_true, decide_eq_true_eq, List.all_eq_true] at h
  obtain ⟨⟨⟨notEmpty, notDot⟩, notDotDot⟩, chars⟩ := h
  refine ⟨?_, ?_, ?_, ?_⟩
  · intro same
    exact notEmpty (Text.utf8_inj (same.trans (by rw [Text.utf8_eq_encode]; decide)))
  · intro same
    exact notDot (Text.utf8_inj (same.trans (by rw [Text.utf8_eq_encode]; decide)))
  · intro same
    exact notDotDot (Text.utf8_inj (same.trans (by rw [Text.utf8_eq_encode]; decide)))
  · intro mem
    rw [Text.utf8_eq_encode] at mem
    exact (chars '/' (Text.mem_of_mem_encode _ '/' (by decide) mem)).1 rfl

/-- The names that lead from the folder of a registry to the file of an artifact. -/
def Folder.namesOf (name version : String) : List Name :=
  [Text.utf8 name, Text.utf8 version, Folder.fileName.bytes]

theorem Folder.pathOf_eq (f : Folder) (name version : String) :
    f.pathOf name version = f.root.below (namesOf name version) := rfl

theorem segments_of_require {name version : String} (h : requireSegments name version = .ok ()) :
    ∀ n ∈ Folder.namesOf name version, Segment n := by
  unfold requireSegments requireSegment at h
  by_cases hn : isSegment name = true
  · by_cases hv : isSegment version = true
    · intro n mem
      simp only [Folder.namesOf, List.mem_cons, List.not_mem_nil, or_false] at mem
      obtain rfl | rfl | rfl := mem
      · exact segment_of_isSegment hn
      · exact segment_of_isSegment hv
      · exact segment_of_isSegment (by decide)
    · simp [hn, hv, bind, Except.bind] at h
  · simp [hn, bind, Except.bind] at h

namespace Folder

variable {f : Folder} {name version : String} {fs fs' : FileSystem} {saved : List Saved} {a : StoredArtifact}

/-! ## Programs -/

theorem get_ok {p : Path} (h : ((get p).run fs).1 = .ok a) :
    ∃ bytes, fs.read p = .ok bytes ∧ StoredArtifact.decoder.ofBytes? bytes = some a := by
  simp only [get, Program.run_bind, Program.run_read] at h
  split at h
  · simp [Program.run_pure] at h
  · next bytes read =>
    refine ⟨bytes, read, ?_⟩
    split at h
    · next b decoded =>
      rw [Program.run_pure] at h
      rw [decoded, Except.ok.inj h]
    · simp [Program.run_pure] at h

theorem run_get_snd (p : Path) (fs : FileSystem) : ((get p).run fs).2 = fs := by
  simp only [get, Program.run_bind, Program.run_read]
  split
  · rfl
  · split <;> rfl

theorem run_set (p : Path) (a : StoredArtifact) (fs : FileSystem) :
    (((set p a).run fs).1 = .ok () ∧
        ∃ fs₁, fs.Furnished fs₁ ∧ fs₁.write p a.toJson.toIndentedBytes = .ok ((set p a).run fs).2) ∨
      (∃ e, ((set p a).run fs).1 = .error e) ∧ fs.Furnished ((set p a).run fs).2 := by
  have furnished := fs.furnished_makeDirectories (p.parent?.getD p)
  simp only [set, Program.run_bind, Program.run_makeDirectories]
  split
  · exact .inr ⟨⟨_, rfl⟩, furnished⟩
  · simp only [Program.run_bind, Program.run_write, Program.run_pure, Program.written]
    split
    · next fs' written => exact .inl ⟨rfl, _, furnished, written⟩
    · exact .inr ⟨⟨_, rfl⟩, furnished⟩

theorem run_save (f : Folder) (name version : String) (payload : Json) (options : SaveOptions) (now : Timestamp)
    (fs : FileSystem) :
    (f.save name version payload options now).run fs =
      match requireSegments name version with
      | .error e => (.error e, fs)
      | .ok () =>
        if fs.present (f.pathOf name version) then (.error (.alreadyExists (label name version)), fs)
        else
          let o := (set (f.pathOf name version) ⟨.new name version options now, payload, []⟩).run fs
          (o.1.map fun _ => .new name version options now, o.2) := by
  unfold save
  cases requireSegments name version with
  | error e => rfl
  | ok =>
    rw [Program.run_present]
    cases fs.present (f.pathOf name version) with
    | true => rfl
    | false =>
      simp only [Bool.false_eq_true, if_false, Program.run_bind]
      cases ((set (f.pathOf name version) ⟨.new name version options now, payload, []⟩).run fs).1 <;> rfl

theorem run_log (f : Folder) (name version : String) (metadata : Json.Members) (fs : FileSystem) :
    (f.log name version metadata).run fs =
      match requireSegments name version with
      | .error e => (.error e, fs)
      | .ok () =>
        if ! fs.present (f.pathOf name version) then (.error (.notFound (label name version)), fs)
        else
          match ((get (f.pathOf name version)).run fs).1 with
          | .error e => (.error e, fs)
          | .ok a => (set (f.pathOf name version) (a.addMetadata metadata)).run fs := by
  unfold log
  cases requireSegments name version with
  | error e => rfl
  | ok =>
    rw [Program.run_present]
    cases fs.present (f.pathOf name version) with
    | false => rfl
    | true =>
      simp only [Bool.not_true, Bool.false_eq_true, if_false, Program.run_bind, run_get_snd]
      cases ((get (f.pathOf name version)).run fs).1 <;> rfl

theorem run_load (f : Folder) (name version : String) (fs : FileSystem) :
    (f.load name version).run fs =
      match requireSegments name version with
      | .error e => (.error e, fs)
      | .ok () =>
        if ! fs.present (f.pathOf name version) then (.error (.notFound (label name version)), fs)
        else (get (f.pathOf name version)).run fs := by
  unfold load
  cases requireSegments name version with
  | error e => rfl
  | ok =>
    rw [Program.run_present]
    cases fs.present (f.pathOf name version) <;> rfl

/-! ## What programs keep -/

section

variable {I : FileSystem → Prop} {p : Path}
  (makes : ∀ fs, I fs → I (fs.makeDirectories (p.parent?.getD p)).2)
  (writes : ∀ fs fs' bytes, I fs → fs.write p bytes = .ok fs' → I fs')

include makes writes

theorem set_keeps (start : I fs) (a : StoredArtifact) : I ((set p a).run fs).2 := by
  have made := makes fs start
  simp only [set, Program.run_bind, Program.run_makeDirectories]
  split
  · exact made
  · simp only [Program.run_bind, Program.run_write, Program.run_pure, Program.written]
    split
    · next fs' written => exact writes _ fs' _ made written
    · exact made

theorem save_keeps (at' : p = f.pathOf name version) (start : I fs) (payload : Json) (options : SaveOptions)
    (now : Timestamp) : I ((f.save name version payload options now).run fs).2 := by
  subst at'
  rw [run_save]
  split
  · exact start
  split
  · exact start
  · exact set_keeps makes writes start _

theorem log_keeps (at' : p = f.pathOf name version) (start : I fs) (metadata : Json.Members) :
    I ((f.log name version metadata).run fs).2 := by
  subst at'
  rw [run_log]
  split
  · exact start
  split
  · exact start
  split
  · exact start
  · exact set_keeps makes writes start _

end

/-! ## What is below the folder -/

/-- What may be at a place below the folder: a directory, or the file of an artifact that was saved. -/
def Allowed (name : String) (saved : List Saved) (below : List Name) (n : Node) : Prop :=
  n = .directory ∨
    ∃ a : StoredArtifact, ∃ s ∈ saved, below = namesOf name s.version ∧ n = .file a.toJson.toIndentedBytes ∧
      Copied s.payload a.payload

/-- Wherever the path of the folder leads, once missing directories have been made, there is nothing
below it that is not allowed. -/
def Holds (f : Folder) (name : String) (saved : List Saved) (fs : FileSystem) : Prop :=
  ∀ fs', fs.Furnished fs' → ∀ l, fs'.Leads f.root l →
    ∀ below n, below ≠ [] → fs.node? (l ++ below) = some n → Allowed name saved below n

theorem Allowed.not_isLink {below : List Name} {n : Node} (allowed : Allowed name saved below n) :
    ¬ n.IsLink := by
  obtain rfl | ⟨a, s, -, -, rfl, -⟩ := allowed <;> simp [Node.IsLink]

theorem Allowed.mono {saved' : List Saved} {below : List Name} {n : Node}
    (allowed : Allowed name saved below n) (more : ∀ s ∈ saved, s ∈ saved') : Allowed name saved' below n :=
  allowed.imp_right fun ⟨a, s, hs, found⟩ => ⟨a, s, more s hs, found⟩

theorem Holds.mono {saved' : List Saved} (holds : Holds f name saved fs) (more : ∀ s ∈ saved, s ∈ saved') :
    Holds f name saved' fs := by
  intro fs' furnished l leads below n ne node
  exact (holds fs' furnished l leads below n ne node).mono more

theorem Holds.furnished (holds : Holds f name saved fs) (furnished : fs.Furnished fs') :
    Holds f name saved fs' := by
  intro fs'' furnished' l leads below n ne node
  obtain same | ⟨-, made⟩ := furnished.node (l ++ below)
  · exact holds fs'' (furnished.trans furnished') l leads below n ne (same.symm.trans node)
  · rw [made, Option.some.injEq] at node
    exact .inl node.symm

theorem Holds.locate (holds : Holds f name saved fs) (require : requireSegments name version = .ok ())
    {last : Bool} {spot : Spot} (found : fs.locate last (f.pathOf name version) = .ok spot) :
    ∃ l, fs.Leads f.root l ∧ fs.node? l = some .directory ∧ spot.location = l ++ namesOf name version := by
  have segments := segments_of_require require
  rw [pathOf_eq] at found
  obtain ⟨left, l, leads, directory, goes⟩ :=
    FileSystem.leads_of_locate (List.cons_ne_nil _ _) segments found
  refine ⟨l, leads, directory, FileSystem.location_of_follow segments ?_ goes⟩
  intro below n ne _ node
  exact (holds fs (.refl fs) l leads below n ne node).not_isLink

theorem Holds.write (holds : Holds f name saved fs) (require : requireSegments name version = .ok ())
    {s : Saved} (hs : s ∈ saved) (hv : s.version = version) (copied : Copied s.payload a.payload)
    (written : fs.write (f.pathOf name version) a.toJson.toIndentedBytes = .ok fs') : Holds f name saved fs' := by
  have segment : Segment fileName.bytes := segment_of_isSegment (by decide)
  obtain ⟨l, spot, rfl⟩ | ⟨_, _, _, _, rfl⟩ := FileSystem.write_eq written
  case inr => exact holds
  have spot : ∃ spot, fs.locate true (f.pathOf name version) = .ok spot ∧ spot.location = l ∧
      (fs.node? l = none ∨ ∃ old, fs.node? l = some (.file old)) := by
    rw [show f.pathOf name version = ((f.root.child (Text.utf8 name)).child (Text.utf8 version)).child fileName.bytes
      from rfl, FileSystem.writeSpot_child segment] at spot
    obtain free | ⟨old, found⟩ := spot
    · exact ⟨_, free, rfl, .inl (FileSystem.holds_of_locate _ free).2⟩
    · exact ⟨_, found, rfl, .inr ⟨old, FileSystem.holds_of_locate _ found⟩⟩
  obtain ⟨spot, found, at', before⟩ := spot
  obtain ⟨there, leads, -, place⟩ := holds.locate require found
  obtain rfl := at'.symm.trans place
  have ne : there ++ namesOf name version ≠ [] := by simp [namesOf]
  have grown : fs.Grown (fs.put _ (.file a.toJson.toIndentedBytes)) := FileSystem.grown_put ne before
  intro fs'' furnished l leads' below n hbelow node
  -- The folder is where it was, so that only the new file has to be looked at.
  obtain rfl : l = there := ((leads.grown grown).grown furnished.grown).unique leads'
  rw [FileSystem.node?_put fs ne] at node
  by_cases here : l ++ below = l ++ namesOf name version
  · rw [if_pos here, Option.some.injEq] at node
    exact .inr ⟨a, s, hs, hv ▸ List.append_cancel_left here, node.symm, copied⟩
  · rw [if_neg here] at node
    exact holds fs (.refl fs) l leads below n hbelow node

theorem Holds.get (holds : Holds f name saved fs) (require : requireSegments name version = .ok ())
    (read : ((get (f.pathOf name version)).run fs).1 = .ok a) :
    ∃ s ∈ saved, s.version = version ∧ Copied s.payload a.payload := by
  obtain ⟨bytes, read, decoded⟩ := get_ok read
  obtain ⟨l, n, found, kind⟩ := FileSystem.read_eq read
  obtain ⟨there, leads, -, place⟩ := holds.locate require found
  have node := FileSystem.holds_of_locate _ found
  obtain rfl : l = there ++ namesOf name version := place
  obtain rfl | ⟨b, s, hs, same, rfl, copied⟩ :=
    holds fs (.refl fs) there leads (namesOf name version) n (by simp [namesOf]) node
  · simp [Node.IsLink] at kind
  · refine ⟨s, hs, ?_, ?_⟩
    · have versions := congrArg (·[1]?) same
      simp only [namesOf, List.getElem?_cons_succ, List.getElem?_cons_zero, Option.some.injEq] at versions
      exact (Text.utf8_inj versions).symm
    · obtain rfl : b.toJson.toIndentedBytes = bytes := by simpa [Node.IsLink] using kind
      exact copied.again (StoredArtifact.parts_of_decoded decoded).1

/-! ## The registry -/

theorem keeping (f : Folder) (name : String) : (Registry.folder f).Keeping name (Holds f name) where
  accepted := by
    intro saved fs version payload options now v fs' holds h
    simp only [Registry.folder, run_save] at h
    split at h
    · simp at h
    next require =>
    split at h
    · simp at h
    obtain ⟨-, fs₁, furnished, written⟩ | ⟨⟨e, failed⟩, -⟩ :=
      run_set (f.pathOf name version) ⟨Version.new name version options now, payload, []⟩ fs
    · obtain ⟨-, rfl⟩ := Prod.mk.inj h
      have holds := (holds.furnished furnished).mono fun s hs => List.mem_append_left [⟨version, payload⟩] hs
      exact holds.write require (List.mem_append_right _ (List.mem_singleton_self _)) rfl (.same _) written
    · simp [failed, Except.map] at h
  refused := by
    intro saved fs version payload options now e fs' holds h
    simp only [Registry.folder, run_save] at h
    split at h
    · exact (Prod.mk.inj h).2 ▸ holds
    split at h
    · exact (Prod.mk.inj h).2 ▸ holds
    obtain ⟨ok, -⟩ | ⟨-, furnished⟩ :=
      run_set (f.pathOf name version) ⟨Version.new name version options now, payload, []⟩ fs
    · simp [ok, Except.map] at h
    · exact (Prod.mk.inj h).2 ▸ holds.furnished furnished
  logged := by
    intro saved fs version metadata holds
    simp only [Registry.folder, run_log]
    split
    · exact holds
    next require =>
    split
    · exact holds
    split
    · exact holds
    next a read =>
    obtain ⟨s, hs, same, copied⟩ := holds.get require read
    have copied : Copied s.payload (a.addMetadata metadata).payload := copied
    obtain ⟨-, fs₁, furnished, written⟩ | ⟨-, furnished⟩ :=
      run_set (f.pathOf name version) (a.addMetadata metadata) fs
    · exact (holds.furnished furnished).write require hs same copied written
    · exact holds.furnished furnished
  loaded := by
    intro saved fs version a holds h
    simp only [Registry.folder, run_load] at h
    split at h
    · simp at h
    next require =>
    split at h
    · simp at h
    exact holds.get require h

/-- Nothing of a name is in the folder, wherever its path leads once missing directories have been made. -/
def Empty (f : Folder) (fs : FileSystem) : Prop :=
  ∀ fs', fs.Furnished fs' → ∀ l, fs'.Leads f.root l →
    ∀ below, below ≠ [] → fs.node? (l ++ below) = none

theorem Empty.holds (empty : f.Empty fs) (name : String) : Holds f name [] fs := by
  intro fs' furnished l leads below n ne node
  simp [empty fs' furnished l leads below ne] at node

end Folder

end Artifact

/-- The registries there are, each of them with nothing in it. -/
inductive Registry.Fresh : {ρ : Type} → Registry ρ → ρ → Prop where
  | memory : Fresh .memory .empty
  | folder (f : Artifact.Folder) (fs : FileSystem) (empty : f.Empty fs) : Fresh (.folder f) fs

/-- **Every registry keeps what was saved**, from when it has nothing in it. -/
theorem Registry.Fresh.keeping {ρ : Type} {reg : Registry ρ} {r : ρ} (fresh : Fresh reg r) (name : String) :
    ∃ Holds, reg.Keeping name Holds ∧ Holds [] r := by
  cases fresh with
  | memory => exact ⟨_, Artifact.Memory.keeping name, Artifact.Memory.holds_empty name⟩
  | folder f fs empty => exact ⟨_, f.keeping name, empty.holds name⟩

end ModelDepot
