import Mathlib
import ModelDepot.Artifact.Store
import ModelDepot.Proofs.Files.Beginnings

/-! # Copying in a store

A copy that succeeds leaves the bytes of the source where the target leads, keeps everything else, and adds nothing
but directories on the way there. But if that is where the source is itself, its bytes are gone.
-/

namespace ModelDepot

open Files (FileSystem Location Node Path dotDot splitSlashes)
open Files.FileSystem (Extended Furnished)

namespace Artifact.Store

variable {fs fs' : FileSystem} {s : Store} {source target : String} {overwrite : Bool} {here p : Path} {t l : Location}
  {bytes : List UInt8}

/-! ## Copies that succeed -/

theorem copyPath_eq_ok (copied : copyPath here p fs = (.ok (), fs')) :
    ∃ fs₁, Furnished fs fs₁ ∧ (fs.Sound → fs₁.Sound) ∧ fs₁.copy here p = .ok fs' ∧
      ∀ k, fs.node? k = none → fs₁.node? k ≠ none → fs₁.Passes p k := by
  unfold copyPath at copied
  cases above : p.parent? with
  | none =>
    simp only [above] at copied
    refine ⟨fs, .refl fs, id, ?_, fun _ nothing there => absurd nothing there⟩
    cases done : fs.copy here p with
    | error e => simp [done] at copied
    | ok fs'' => simpa [done] using copied
  | some parent =>
    simp only [above] at copied
    have furnished := Files.FileSystem.furnished_makeDirectories fs parent
    have soundly : fs.Sound → (fs.makeDirectories parent).2.Sound := fun sound => sound.makeDirectories parent
    have passes : ∀ k, fs.node? k = none → (fs.makeDirectories parent).2.node? k ≠ none →
        (fs.makeDirectories parent).2.Passes p k :=
      fun _ => Files.FileSystem.passes_of_makeDirectories (Path.parent?_cases above)
    rcases made : fs.makeDirectories parent with ⟨r, fs₁⟩
    rw [made] at furnished soundly passes
    refine ⟨fs₁, furnished, soundly, ?_, passes⟩
    cases r with
    | error e => simp [made] at copied
    | ok u =>
      cases done : fs₁.copy here p with
      | error e => simp [made, done] at copied
      | ok fs'' => simpa [made, done] using copied

/-! ## Copies that are refused -/

theorem resolve_error {uri : String} {e : Error} (failed : s.resolve uri = .error e) : ∃ text, e = .invalidLocation text := by
  unfold resolve at failed
  split at failed
  · exact ⟨_, (Except.error.inj failed).symm⟩
  split at failed
  · split at failed
    · exact ⟨_, (Except.error.inj failed).symm⟩
    split at failed
    · simp at failed
    · exact ⟨_, (Except.error.inj failed).symm⟩
  split at failed
  · exact ⟨_, (Except.error.inj failed).symm⟩
  · simp at failed

theorem copyPath_error {e : Error} (failed : (copyPath here p fs).1 = .error e) : ∃ path cause, e = .file path cause := by
  unfold copyPath at failed
  cases above : p.parent? with
  | none =>
    simp only [above] at failed
    split at failed
    · simp at failed
    · exact ⟨_, _, (Except.error.inj failed).symm⟩
  | some parent =>
    rcases made : fs.makeDirectories parent with ⟨r, fs₁⟩
    cases r with
    | error cause =>
      simp only [above, made] at failed
      exact ⟨_, _, (Except.error.inj failed).symm⟩
    | ok u =>
      simp only [above, made] at failed
      split at failed
      · simp at failed
      · exact ⟨_, _, (Except.error.inj failed).symm⟩

theorem copy_cases (s : Store) (source target : String) (overwrite : Bool) (fs : FileSystem) :
    (∃ text, s.copy source target overwrite fs = (.error (.invalidLocation text), fs) ∧
        ∀ here p, s.resolve source = .ok here → s.resolve target ≠ .ok p) ∨
      ∃ here p, s.resolve source = .ok here ∧ s.resolve target = .ok p ∧
        (fs.isFile here = false ∧ s.copy source target overwrite fs = (.error (.notFound source), fs) ∨
          fs.isFile here = true ∧
            (fs.present p = true ∧ overwrite = false ∧
                s.copy source target overwrite fs = (.error (.alreadyExists target), fs) ∨
              ¬ (fs.present p = true ∧ overwrite = false) ∧ s.copy source target overwrite fs = copyPath here p fs)) := by
  unfold copy
  cases resolved : s.resolve source with
  | error e =>
    obtain ⟨text, rfl⟩ := resolve_error resolved
    exact .inl ⟨text, rfl, by simp⟩
  | ok here =>
    cases resolved' : s.resolve target with
    | error e =>
      obtain ⟨text, rfl⟩ := resolve_error resolved'
      exact .inl ⟨text, rfl, by simp⟩
    | ok p =>
      refine .inr ⟨here, p, rfl, rfl, ?_⟩
      cases file : fs.isFile here <;> cases there : fs.present p <;> cases overwrite <;> simp [file, there]

theorem copy_eq_ok (copied : s.copy source target overwrite fs = (.ok (), fs')) :
    ∃ here p, s.resolve source = .ok here ∧ s.resolve target = .ok p ∧ fs.isFile here = true ∧
      copyPath here p fs = (.ok (), fs') := by
  rcases s.copy_cases source target overwrite fs with
    ⟨text, refused, -⟩ | ⟨here, p, resolved, resolved', ⟨-, refused⟩ | ⟨file, ⟨-, -, refused⟩ | ⟨-, same⟩⟩⟩
  · simp [refused] at copied
  · simp [refused] at copied
  · simp [refused] at copied
  · exact ⟨here, p, resolved, resolved', file, same ▸ copied⟩

/-! ## What a copy leaves -/

theorem reaches_of_isFile (file : fs.isFile here = true) :
    ∃ t bytes, fs.Reaches here t ∧ fs.node? t = some (.file bytes) := by
  unfold FileSystem.isFile at file
  split at file
  · next t bytes found => exact ⟨t, bytes, FileSystem.reaches_of_status found⟩
  · simp at file

/-- The bytes of the file at `t` were copied to `l`, where the target leads. A device there keeps nothing, and the
file at `t` itself is emptied. All else that was there is as it was, and what is new are directories on the way of
the target, above `l` unless the target steps upward. -/
structure Landed (fs fs' : FileSystem) (t : Location) (bytes : List UInt8) (p : Path) (l : Location) : Prop where
  reaches : fs'.Reaches p l
  node :
    (fs.node? l = none ∨ ∃ old, fs.node? l = some (.file old)) ∧
        fs'.node? l = some (.file (if l = t then [] else bytes)) ∨
      fs.node? l = some .other ∧ fs'.node? l = some .other
  kept : ∀ k n, k ≠ l → fs.node? k = some n → fs'.node? k = some n
  fresh : ∀ k n, k ≠ l → fs.node? k = none → fs'.node? k = some n →
    n = .directory ∧ fs'.Passes p k ∧ (dotDot ∉ splitSlashes p.bytes → k <+: l)

theorem kept_of_furnished {fs₁ : FileSystem} (furnished : Furnished fs fs₁) {k : Location} {n : Node}
    (node : fs.node? k = some n) : fs₁.node? k = some n := by
  rcases furnished.node k with same | ⟨free, -⟩
  · rw [same, node]
  · simp [free] at node

theorem before_of_furnished {fs₁ : FileSystem} (furnished : Furnished fs fs₁) {k : Location} {n : Node}
    (node : fs₁.node? k = some n) (other : n ≠ .directory) : fs.node? k = some n := by
  rcases furnished.node k with same | ⟨-, made⟩
  · rw [← same, node]
  · exact absurd (Option.some.inj (node.symm.trans made)) other

theorem noLinks_of_free (sound : fs.Sound) (extended : Extended fs fs') {k : Location} (free : fs.node? k = none) :
    ∀ l n, k <+: l → fs'.node? l = some n → ¬ n.IsLink := by
  rintro _ n ⟨more, rfl⟩ node
  refine extended.fresh _ ?_ n node
  by_contra there
  obtain ⟨m, there⟩ := Option.ne_none_iff_exists'.mp there
  by_cases here : more = []
  · simp [here, free] at there
  · simp [sound.above here there] at free

theorem landed (sound : fs.Sound) (reaches : fs.Reaches here t) (file : fs.node? t = some (.file bytes))
    (copied : copyPath here p fs = (.ok (), fs')) : ∃ l, Landed fs fs' t bytes p l := by
  obtain ⟨fs₁, furnished, soundly, copied, passes⟩ := copyPath_eq_ok copied
  have file₁ := kept_of_furnished furnished file
  rcases FileSystem.copy_eq (soundly sound) (reaches.grown furnished.grown) file₁ copied with
    ⟨rfl, l, found⟩ | ⟨l, spot, -, -, -, before, reaches', -, extended, nodes⟩
  · have node : fs'.node? l = some .other := FileSystem.holds_of_locate true found
    refine ⟨l, FileSystem.reaches_of_locate found, .inr ⟨before_of_furnished furnished node (by simp), node⟩,
      fun k n _ => kept_of_furnished furnished, fun k n _ free new => ?_⟩
    have directory : n = .directory := by
      by_contra other
      simp [before_of_furnished furnished new other] at free
    have passed := passes k free (by simp [new])
    exact ⟨directory, passed, fun noUp => passed.above (noLinks_of_free sound furnished.extended free) noUp found⟩
  · have node := nodes l
    rw [if_pos rfl] at node
    refine ⟨l, reaches', .inl ⟨?_, node⟩, ?_, ?_⟩
    · rcases before with free | ⟨old, there⟩
      · rcases furnished.node l with same | ⟨free', -⟩
        · exact .inl (same ▸ free)
        · exact .inl free'
      · exact .inr ⟨old, before_of_furnished furnished there (by simp)⟩
    · intro k n other there
      rw [nodes, if_neg other]
      exact kept_of_furnished furnished there
    · intro k n other free new
      rw [nodes, if_neg other] at new
      have directory : n = .directory := by
        by_contra other
        simp [before_of_furnished furnished new other] at free
      have passed := (passes k free (by simp [new])).grown extended.toGrown
      have noLinks := noLinks_of_free sound (furnished.extended.trans extended) free
      exact ⟨directory, passed, fun noUp => passed.above noLinks noUp (reaches'.locate node)⟩

/-- **Where a copy lands.** If a copy succeeds, the file that the source led to has landed where the target leads.
If it is refused, nothing has changed, and it is refused for what is at the target exactly if the source is a file,
something is there and may not be overwritten. -/
theorem copy_lands (s : Store) (sound : fs.Sound) (source target : String) (overwrite : Bool) :
    let o := s.copy source target overwrite fs
    (o.1 = .ok () →
        ∃ here p t bytes l, s.resolve source = .ok here ∧ s.resolve target = .ok p ∧ fs.Reaches here t ∧
          fs.node? t = some (.file bytes) ∧ Landed fs o.2 t bytes p l) ∧
      (∀ e, o.1 = .error e → (∀ path cause, e ≠ .file path cause) → o.2 = fs) ∧
        ((∃ what, o.1 = .error (.alreadyExists what)) ↔
          ∃ here p, s.resolve source = .ok here ∧ s.resolve target = .ok p ∧ fs.isFile here = true ∧
            fs.present p = true ∧ overwrite = false) := by
  intro o
  refine ⟨fun done => ?_, ?_, ?_⟩
  · obtain ⟨here, p, resolved, resolved', file, copied⟩ := copy_eq_ok (Prod.ext done rfl : o = (.ok (), o.2))
    obtain ⟨t, bytes, reaches, node⟩ := reaches_of_isFile file
    obtain ⟨l, landed⟩ := landed sound reaches node copied
    exact ⟨here, p, t, bytes, l, resolved, resolved', reaches, node, landed⟩
  · intro e failed elsewhere
    rcases s.copy_cases source target overwrite fs with
      ⟨text, refused, -⟩ | ⟨here, p, -, -, ⟨-, refused⟩ | ⟨-, ⟨-, -, refused⟩ | ⟨-, same⟩⟩⟩
    · exact congrArg Prod.snd refused
    · exact congrArg Prod.snd refused
    · exact congrArg Prod.snd refused
    · obtain ⟨path, cause, rfl⟩ := copyPath_error ((congrArg Prod.fst same).symm.trans failed)
      exact absurd rfl (elsewhere path cause)
  · constructor
    · rintro ⟨what, failed⟩
      rcases s.copy_cases source target overwrite fs with
        ⟨text, refused, -⟩ | ⟨here, p, resolved, resolved', ⟨-, refused⟩ | ⟨file, ⟨there, keep, -⟩ | ⟨-, same⟩⟩⟩
      · simp [o, refused] at failed
      · simp [o, refused] at failed
      · exact ⟨here, p, resolved, resolved', file, there, keep⟩
      · obtain ⟨path, cause, other⟩ := copyPath_error ((congrArg Prod.fst same).symm.trans failed)
        simp at other
    · rintro ⟨here, p, resolved, resolved', file, there, keep⟩
      rcases s.copy_cases source target overwrite fs with
        ⟨-, -, unresolved⟩ | ⟨here', p', same, same', ⟨missing, -⟩ | ⟨-, ⟨-, -, refused⟩ | ⟨goes, -⟩⟩⟩
      · exact absurd resolved' (unresolved here p resolved)
      · obtain rfl := Except.ok.inj (resolved.symm.trans same)
        simp [file] at missing
      · exact ⟨target, congrArg Prod.fst refused⟩
      · obtain rfl := Except.ok.inj (resolved'.symm.trans same')
        exact absurd ⟨there, keep⟩ goes

/-- The file `m` and nothing else. -/
def single : FileSystem := ⟨[([[0x6d]], .file [1])], []⟩

theorem copy_lands_single :
    let o := Store.copy ⟨.root⟩ "m" "a/n" false single
    ∃ here p t bytes l, Store.resolve ⟨.root⟩ "m" = .ok here ∧ Store.resolve ⟨.root⟩ "a/n" = .ok p ∧
      single.Reaches here t ∧ single.node? t = some (.file bytes) ∧ Landed single o.2 t bytes p l :=
  (copy_lands ⟨.root⟩ (FileSystem.sound_of_entries (by decide) (by decide) (by decide)) "m" "a/n" false).1 (by cbv)

/-- **A file that is copied onto itself is lost.** -/
theorem copy_empties_itself :
    let o := Store.copy ⟨.root⟩ "m" "m" true single
    o.1 = .ok () ∧ single.node? [[0x6d]] = some (.file [1]) ∧ o.2.node? [[0x6d]] = some (.file []) := by
  refine ⟨?_, ?_, ?_⟩ <;> cbv

end Artifact.Store

end ModelDepot
