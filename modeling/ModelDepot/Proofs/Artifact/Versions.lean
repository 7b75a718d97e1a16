import ModelDepot.Proofs.Artifact.Folder
import ModelDepot.Proofs.Files.Passing

/-! # Versions in a folder

What was saved in a folder and then logged is one file, and it is read as far as documents may nest. The versions of
a name are those of its files, and a file that is added leaves the others as they are.
-/

namespace ModelDepot

open Files (Errno FileSystem Location Name Node Path Program Segment)

namespace Artifact

namespace Folder

variable {f : Folder} {name version : String} {payload : Json} {options : SaveOptions} {now : Timestamp}
  {metadata : Json.Members} {fs fs' fs'' : FileSystem} {a : StoredArtifact} {p : Path} {v : Version}

/-! ## What is read -/

theorem get_of_read {bytes : List UInt8} (read : fs.read p = .ok bytes) :
    ((get p).run fs).1 =
      match StoredArtifact.decoder.ofBytes? bytes with
      | some a => .ok a
      | none => .error .unreadable := by
  simp only [get, Program.run_bind, Program.run_read, read]
  cases StoredArtifact.decoder.ofBytes? bytes <;> rfl

theorem present_of_read {bytes : List UInt8} (read : fs.read p = .ok bytes) : fs.present p = true := by
  unfold FileSystem.read at read
  unfold FileSystem.present
  cases status : fs.status p with
  | ok x => rfl
  | error e => simp [status] at read

theorem load_of_read (require : requireSegments name version = .ok ()) {bytes : List UInt8}
    (read : fs.read (f.pathOf name version) = .ok bytes) :
    (Registry.folder f).load name version fs =
      match StoredArtifact.decoder.ofBytes? bytes with
      | some a => .ok a
      | none => .error .unreadable := by
  simp only [Registry.folder, run_load, require, present_of_read read, Bool.not_true, Bool.false_eq_true, if_false]
  exact get_of_read read

theorem load_ok (h : (Registry.folder f).load name version fs = .ok a) :
    requireSegments name version = .ok () ∧ fs.present (f.pathOf name version) = true ∧
      ((get (f.pathOf name version)).run fs).1 = .ok a := by
  simp only [Registry.folder, run_load] at h
  split at h
  · simp at h
  next require =>
  split at h
  · simp at h
  next there => exact ⟨require, by simpa using there, h⟩

theorem set_ok (h : (set p a).run fs = (.ok (), fs')) :
    ∃ fs₁, fs.Furnished fs₁ ∧ fs₁.write p a.toJson.toIndentedBytes = .ok fs' := by
  obtain ⟨-, fs₁, furnished, written⟩ | ⟨⟨e, failed⟩, -⟩ := run_set p a fs
  · exact ⟨fs₁, furnished, by rw [written, h]⟩
  · simp [h] at failed

theorem save_ok (h : (f.save name version payload options now).run fs = (.ok v, fs')) :
    requireSegments name version = .ok () ∧ fs.present (f.pathOf name version) = false ∧
      v = .new name version options now ∧ (set (f.pathOf name version) ⟨v, payload, []⟩).run fs = (.ok (), fs') := by
  rw [run_save] at h
  split at h
  · simp at h
  next require =>
  split at h
  · simp at h
  next free =>
  obtain ⟨result, rfl⟩ := Prod.mk.inj h
  cases done : ((set (f.pathOf name version) ⟨.new name version options now, payload, []⟩).run fs).1 with
  | error e => simp [done, Except.map] at result
  | ok =>
    simp only [done, Except.map, Except.ok.injEq] at result
    subst result
    exact ⟨require, by simpa using free, rfl, Prod.ext done rfl⟩

theorem log_ok (h : (f.log name version metadata).run fs = (.ok (), fs')) :
    fs.present (f.pathOf name version) = true ∧ ∃ a, ((get (f.pathOf name version)).run fs).1 = .ok a ∧
      (set (f.pathOf name version) (a.addMetadata metadata)).run fs = (.ok (), fs') := by
  rw [run_log] at h
  split at h
  · simp at h
  split at h
  · simp at h
  next there =>
  split at h
  · simp at h
  next a read => exact ⟨by simpa using there, a, read, h⟩

/-- **An artifact that was saved and logged** was new, could be read in between, and is one file with both. -/
theorem read_of_logged (saved : (f.save name version payload options now).run fs = (.ok v, fs'))
    (logged : (f.log name version metadata).run fs' = (.ok (), fs'')) :
    requireSegments name version = .ok () ∧ fs.present (f.pathOf name version) = false ∧
      ∃ a, StoredArtifact.decoder.ofBytes?
          (StoredArtifact.mk (.new name version options now) payload []).toJson.toIndentedBytes = some a ∧
        fs''.read (f.pathOf name version) = .ok (a.addMetadata metadata).toJson.toIndentedBytes := by
  obtain ⟨require, free, rfl, done⟩ := save_ok saved
  obtain ⟨there, a, got, done'⟩ := log_ok logged
  obtain ⟨fs₁, -, written⟩ := set_ok done
  obtain ⟨fs₂, furnished, rewritten⟩ := set_ok done'
  obtain ⟨bytes, read, decoded⟩ := get_ok got
  have some' : bytes ≠ [] := by
    rintro rfl
    exact absurd decoded (by simp [show StoredArtifact.decoder.ofBytes? [] = none from rfl])
  obtain same | ⟨l, n, status, kind, rfl⟩ := FileSystem.read_of_write written there
  · obtain rfl := Except.ok.inj (same.symm.trans read)
    exact ⟨require, free, a, decoded, FileSystem.read_of_rewrite read some' furnished.grown rewritten⟩
  · -- What keeps nothing is read as empty.
    rw [FileSystem.read, status] at read
    obtain rfl | ⟨target, rfl⟩ := kind <;> exact absurd (Except.ok.inj read).symm some'

section

variable (saved : (f.save name version payload options now).run fs = (.ok v, fs'))
  (logged : (f.log name version metadata).run fs' = (.ok (), fs''))

include saved logged

theorem logged_keeps {I : FileSystem → Prop}
    (makes : ∀ fs, I fs → I (fs.makeDirectories ((f.pathOf name version).parent?.getD (f.pathOf name version))).2)
    (writes : ∀ fs fs' bytes, I fs → fs.write (f.pathOf name version) bytes = .ok fs' → I fs') (start : I fs) : I fs'' := by
  have between := save_keeps makes writes rfl start payload options now
  rw [saved] at between
  have after := log_keeps makes writes rfl between metadata
  rwa [logged] at after

theorem passing_logged : FileSystem.Passing (f.pathOf name version) fs fs'' :=
  logged_keeps saved logged
    (fun _ passing => passing.trans (FileSystem.passing_makeDirectories (f.pathOf name version).heads_parent))
    (fun _ _ _ passing written => passing.trans (FileSystem.passing_write written)) (.refl _ fs)

theorem sound_logged (sound : fs.Sound) : fs''.Sound :=
  logged_keeps saved logged (fun _ sound => sound.makeDirectories _) (fun _ _ _ sound written => sound.write written) sound

end

/-! ## What is listed -/

/-- The path of the file of a version, which is given by the name of its folder. -/
def entry (f : Folder) (name : String) (n : Name) : Path := ((f.pathOfName name).child n).join fileName

theorem entry_eq (f : Folder) (name : String) (n : Name) :
    f.entry name n = f.root.below [Text.utf8 name, n, fileName.bytes] := rfl

theorem entry_version (f : Folder) (name version : String) : f.entry name (Text.utf8 version) = f.pathOf name version := rfl

theorem records_iff (folder : Path) (names : List Name) (fs : FileSystem) (Q : Version → Prop) :
    (∃ vs, ((records folder names).run fs).1 = .ok vs ∧ ∀ v ∈ vs, Q v) ↔
      ∀ n ∈ names, fs.present ((folder.child n).join fileName) = true →
        ∃ a, ((get ((folder.child n).join fileName)).run fs).1 = .ok a ∧ Q a.version := by
  induction names with
  | nil => simp [records, Program.run_pure]
  | cons n rest ih =>
    rw [List.forall_mem_cons, ← ih, records, Program.run_present]
    cases fs.present ((folder.child n).join fileName) with
    | false => simp
    | true =>
      simp only [Bool.not_true, Bool.false_eq_true, if_false, Program.run_bind, run_get_snd, forall_const]
      cases ((get ((folder.child n).join fileName)).run fs).1 with
      | error e => simp [Program.run_pure]
      | ok a =>
        simp only [Program.run_bind, Program.run_pure]
        cases ((records folder rest).run fs).1 with
        | error e => simp [Except.map]
        | ok vs => simp [Except.map]

theorem versions_iff (require : requireSegment "name" name = .ok ()) (fs : FileSystem) (Q : Version → Prop) :
    (∃ vs, (Registry.folder f).versions name fs = .ok vs ∧ ∀ v ∈ vs, Q v) ↔
      fs.names (f.pathOfName name) = .error .noEntry ∨
        ∃ names, fs.names (f.pathOfName name) = .ok names ∧
          ∀ n ∈ names, fs.present (f.entry name n) = true →
            ∃ a, ((get (f.entry name n)).run fs).1 = .ok a ∧ Q a.version := by
  simp only [Registry.folder, versions, require, Program.run_names]
  cases fs.names (f.pathOfName name) with
  | error e => cases e <;> simp [Program.run_pure]
  | ok names =>
    have all := records_iff (f.pathOfName name) names fs Q
    simp only [Program.run_bind, Program.run_pure, reduceCtorEq, false_or, Except.ok.injEq, exists_eq_left']
    unfold entry
    rw [← all]
    cases ((records (f.pathOfName name) names).run fs).1 with
    | error e => simp [Except.map]
    | ok vs => simp [Except.map, oldestFirst]

end Folder

end Artifact

end ModelDepot
