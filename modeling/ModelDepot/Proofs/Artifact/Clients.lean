import Mathlib
import ModelDepot.Proofs.Artifact.Refinement
import ModelDepot.Proofs.Files.Together

/-! # Two clients of one folder

Two clients use one folder without a lock. Each of them asks for one thing, about the same name and version. They
end as if one had asked after the other, unless both save or both log: then what one of them stored may be lost
although both were told that it was done.
-/

namespace ModelDepot

open Files (FileSystem Location Node Path Program Segment)

/-- What two calls are answered one after the other, and what is left. -/
def Registry.inOrder {ρ : Type} (reg : Registry ρ) (c d : Artifact.Call) (r : ρ) :
    Except Artifact.Error Artifact.Reply × Except Artifact.Error Artifact.Reply × ρ :=
  let (a, r) := reg.ask c r
  let (b, r) := reg.ask d r
  (a, b, r)

namespace Artifact

/-- The request stores something. -/
def Request.changes : Request → Bool
  | .save .. => true
  | .log _ => true
  | .load => false
  | .metadata => false

def Request.isLog : Request → Bool
  | .log _ => true
  | _ => false

/-- Two requests of the same kind that store something. -/
def Request.rivals : Request → Request → Bool
  | .save .., .save .. => true
  | .log _, .log _ => true
  | _, _ => false

theorem Request.rivals_iff {request request' : Request} :
    request.rivals request' ↔ request.changes ∧ request'.changes ∧ request.isLog = request'.isLog := by
  cases request <;> cases request' <;> simp [rivals, changes, isLog]

namespace Folder

variable {f : Folder} {root : Location} {held : String × String → Option StoredArtifact} {fs fs' : FileSystem}
  {name version : String}

/-! ## One file is shared -/

/-- The folder of a name and a version. -/
def home (f : Folder) (name version : String) : Path := (f.root.child (Text.utf8 name)).child (Text.utf8 version)

/-- The bytes are the document of an artifact. -/
def IsDocument (bytes : List UInt8) : Prop := ∃ a : StoredArtifact, bytes = a.toJson.toIndentedBytes

namespace Shelf

theorem makeDirectories_home (shelf : f.Shelf root held fs) (require : requireSegments name version = .ok ()) :
    fs.makeDirectories (f.home name version) =
      match (f.home name version).fault? with
      | some e => (.error e, fs)
      | none =>
        if Files.maxName < (Text.utf8 name).length then (.error .nameTooLong, fs)
        else if Files.maxName < (Text.utf8 version).length then
          (.error .nameTooLong, fs.furnish (root ++ [Text.utf8 name]))
        else
          (.ok (), (fs.furnish (root ++ [Text.utf8 name])).furnish (root ++ [Text.utf8 name, Text.utf8 version])) :=
  have segments := segments_of_require require
  FileSystem.makeDirectories_child_child shelf.leads shelf.directory (segments _ (by simp [namesOf]))
    (segments _ (by simp [namesOf])) (shelf.furnishable (by simp) (by simp)) (shelf.furnishable (by simp) (by simp))

/-- The names are short enough for folders, and the folders are there. -/
structure Homed (f : Folder) (root : Location) (name version : String) (fs : FileSystem) : Prop where
  fine : (f.home name version).fault? = none
  shortName : (Text.utf8 name).length ≤ Files.maxName
  shortVersion : (Text.utf8 version).length ≤ Files.maxName
  first : fs.node? (root ++ [Text.utf8 name]) = some .directory
  second : fs.node? (root ++ [Text.utf8 name, Text.utf8 version]) = some .directory

theorem made_home (shelf : f.Shelf root held fs) (require : requireSegments name version = .ok ()) :
    let made := fs.makeDirectories (f.home name version)
    Shelved root name version fs made.2 ∧ made.2.makeDirectories (f.home name version) = made ∧
      (made.1 = .ok () → Homed f root name version made.2) := by
  have shelvedFirst : Shelved root name version fs (fs.furnish (root ++ [Text.utf8 name])) :=
    shelved_furnish fs (.inl rfl)
  have there : (fs.furnish (root ++ [Text.utf8 name])).node? (root ++ [Text.utf8 name]) = some .directory :=
    (shelf.furnishable (by simp) (by simp)).node?_furnish (by simp)
  have made := shelf.makeDirectories_home require
  cases fine : (f.home name version).fault? with
  | some e =>
    simp only [fine] at made
    simp only [made]
    exact ⟨.refl fs, trivial, nofun⟩
  | none =>
    by_cases longName : Files.maxName < (Text.utf8 name).length
    · simp only [fine, longName, if_true] at made
      simp only [made]
      exact ⟨.refl fs, trivial, nofun⟩
    have shelfFirst := shelf.shelved shelvedFirst
    by_cases longVersion : Files.maxName < (Text.utf8 version).length
    · have again := shelfFirst.makeDirectories_home require
      simp only [fine, longName, longVersion, if_true, if_false, FileSystem.furnish_of_node? there] at made again
      simp only [made]
      exact ⟨shelvedFirst, again, nofun⟩
    have shelvedSecond : Shelved root name version (fs.furnish (root ++ [Text.utf8 name]))
        ((fs.furnish (root ++ [Text.utf8 name])).furnish (root ++ [Text.utf8 name, Text.utf8 version])) :=
      shelved_furnish _ (.inr rfl)
    have wide : (fs.furnish (root ++ [Text.utf8 name])).Furnishable (root ++ [Text.utf8 name, Text.utf8 version]) :=
      shelfFirst.furnishable (by simp) (by simp)
    have there' := wide.node?_furnish (by simp)
    have there := shelvedSecond.grown.directory there
    have again := (shelfFirst.shelved shelvedSecond).makeDirectories_home require
    simp only [fine, longName, longVersion, if_false, FileSystem.furnish_of_node? there,
      FileSystem.furnish_of_node? there'] at made again
    simp only [made]
    exact ⟨shelvedFirst.trans shelvedSecond, again, fun _ => ⟨fine, by omega, by omega, there, there'⟩⟩

theorem refusal_of_home (homed : Homed f root name version fs) (fine : (f.pathOf name version).fault? = none) :
    f.refusal name version = none := by
  have folder : ((f.pathOfName name).join (.ofText version)).fault? = none := homed.fine
  have short := homed.shortName
  have short' := homed.shortVersion
  simp only [refusal, folder, fine]
  rw [if_neg (by omega)]
  rfl

theorem Homed.makeDirectories (homed : Homed f root name version fs) (shelf : f.Shelf root held fs)
    (require : requireSegments name version = .ok ()) : fs.makeDirectories (f.home name version) = (.ok (), fs) := by
  rw [shelf.makeDirectories_home require, homed.fine]
  simp only [Nat.not_lt.mpr homed.shortName, Nat.not_lt.mpr homed.shortVersion, if_false,
    FileSystem.furnish_of_node? homed.first, FileSystem.furnish_of_node? homed.second]

theorem Homed.write (homed : Homed f root name version fs) (shelf : f.Shelf root held fs)
    (require : requireSegments name version = .ok ()) {a : StoredArtifact}
    (written : fs.write (f.pathOf name version) a.toJson.toIndentedBytes = .ok fs') :
    f.Shelf root (fun pair => if pair = (name, version) then some a else held pair) fs' ∧
      Homed f root name version fs' ∧ ∀ b : StoredArtifact, ∃ s,
        fs.write (f.pathOf name version) b.toJson.toIndentedBytes = .ok s ∧
          fs'.write (f.pathOf name version) b.toJson.toIndentedBytes = .ok s := by
  have writes := shelf.write_eq require homed.first homed.second homed.shortName homed.shortVersion
  cases fine : (f.pathOf name version).fault? with
  | some e => simp [writes, fine] at written
  | none =>
    simp only [writes, fine, Except.ok.injEq] at written
    subst written
    have shelf' := shelf.put ⟨require, refusal_of_home homed fine⟩ homed.first homed.second a
    obtain ⟨first, second⟩ := shelf'.above (name, version) a (if_pos rfl)
    have homed' : Homed f root name version _ := { homed with first, second }
    refine ⟨shelf', homed', fun b => ⟨_, by rw [writes, fine], ?_⟩⟩
    have writes' := shelf'.write_eq require first second homed.shortName homed.shortVersion
    rw [writes', fine, FileSystem.put_put]

/-- **Clients share one file** for one name and version. -/
theorem steady (shelf : f.Shelf root held fs) (require : requireSegments name version = .ok ()) :
    fs.Steady (f.home name version) (f.pathOf name version) IsDocument := by
  obtain ⟨shelved, again, homed⟩ := shelf.made_home require
  have shelf' := shelf.shelved shelved
  constructor
  case again => exact again
  case present => rw [shelf'.present_eq require, shelf.present_eq require]
  case read =>
    intro there
    rw [shelf.present_eq require, Option.isSome_iff_exists] at there
    obtain ⟨a, there⟩ := there
    rw [FileSystem.read, FileSystem.read, shelf'.status_of_held there, shelf.status_of_held there]
  case written =>
    rintro made bytes s ⟨a, rfl⟩ written
    obtain ⟨later, homed', all⟩ := (homed made).write shelf' require written
    refine ⟨homed'.makeDirectories later require, ?_, ?_⟩
    · rw [later.present_eq require, if_pos rfl]
      rfl
    · rintro others ⟨b, rfl⟩
      exact all b

end Shelf

/-! ## What a client does -/

variable (f) in
/-- What a client of the folder does for a call. -/
def calling (c : Call) : Program (Except Error Reply) :=
  match c.request with
  | .save payload options now => do return (← f.save c.name c.version payload options now).map .version
  | .log ms => do return (← f.log c.name c.version ms).map fun _ => .done
  | .load => do return (← f.load c.name c.version).map .artifact
  | .metadata => do return (← f.load c.name c.version).map fun a => .metadata a.metadata

theorem run_load_snd (fs : FileSystem) : ((f.load name version).run fs).2 = fs := by
  rw [run_load]
  split
  · rfl
  · split
    · rfl
    · exact run_get_snd _ fs

theorem run_calling (c : Call) (fs : FileSystem) : (f.calling c).run fs = (Registry.folder f).ask c fs := by
  obtain ⟨name, version, request⟩ := c
  cases request with
  | save payload options now => exact Program.run_bind ..
  | log ms => exact Program.run_bind ..
  | load => exact (Program.run_bind ..).trans (Prod.ext rfl (run_load_snd fs))
  | metadata =>
    refine (Program.run_bind ..).trans (Prod.ext ?_ (run_load_snd fs))
    simp only [Registry.ask, Registry.metadata, Registry.folder]
    cases ((f.load name version).run fs).1 <;> rfl

theorem parent?_pathOf (require : requireSegments name version = .ok ()) :
    (f.pathOf name version).parent? = some (f.home name version) :=
  have segments := segments_of_require require
  Path.parent?_child_child (f.root.child (Text.utf8 name)) (segments (Text.utf8 version) (by simp [namesOf]))
    (segments fileName.bytes (by simp [namesOf]))

theorem settled_set (require : requireSegments name version = .ok ()) (a : StoredArtifact) {α : Type}
    {next : Except Error Unit → Program α} {g : Except Error Unit → α} (ends : ∀ r, next r = .done (g r)) :
    Program.Settled (f.home name version) (f.pathOf name version) IsDocument
      ((set (f.pathOf name version) a).andThen next) := by
  have same : (set (f.pathOf name version) a).andThen next =
      Program.storing (f.home name version) (f.pathOf name version) a.toJson.toIndentedBytes
        (fun e => g (.error (.file (f.home name version).text e))) (fun r => g (lift (f.pathOf name version) r)) := by
    unfold set
    rw [parent?_pathOf require, Option.getD_some]
    refine congrArg (Program.makeDirectories _) (funext fun made => ?_)
    cases made with
    | error e => exact ends _
    | ok => exact congrArg (Program.write _ _) (funext fun r => ends _)
  exact same ▸ .storing ⟨a, rfl⟩ _ _

theorem sharing_calling (require : requireSegments name version = .ok ()) (request : Request) (fs : FileSystem) :
    Program.Sharing (f.home name version) (f.pathOf name version) IsDocument
      (f.calling ⟨name, version, request⟩) fs := by
  unfold calling
  cases request with
  | save payload options now =>
    simp only [save, require]
    refine .testing ?_ (.inl (.done _))
    change Program.Settled _ _ _ (Program.andThen (Program.andThen (set _ _) _) _)
    rw [Program.andThen_assoc]
    exact settled_set require _ (g := fun r => (r.map fun _ => Version.new name version options now).map .version)
      fun r => by cases r <;> rfl
  | log ms =>
    simp only [log, require]
    refine .testing (.done _) (.inr ⟨_, rfl, fun r => ?_⟩)
    cases r with
    | error e => exact .done _
    | ok bytes =>
      simp only [Program.andThen]
      cases StoredArtifact.decoder.ofBytes? bytes with
      | none => exact .done _
      | some a => exact settled_set require _ fun r => rfl
  | load | metadata =>
    simp only [load, require]
    refine .testing (.done _) (.inr ⟨_, rfl, fun r => ?_⟩)
    cases r with
    | error e => exact .done _
    | ok bytes =>
      simp only [Program.andThen]
      cases StoredArtifact.decoder.ofBytes? bytes <;> exact .done _

/-! ## Who writes -/

theorem writes_set (p : Path) (a : StoredArtifact) (fs : FileSystem) :
    (set p a).writes fs ↔ ((set p a).run fs).1 = .ok () := by
  simp only [set, Program.writes_bind, Program.run_bind, Program.run_makeDirectories, Program.writes_makeDirectories,
    false_or]
  cases (fs.makeDirectories (p.parent?.getD p)).1 with
  | error e => simp [Program.writes_pure, Program.run_pure]
  | ok =>
    simp only [Program.writes_bind, Program.run_bind, Program.run_write, Program.writes_write, Program.writes_pure,
      Program.run_pure, or_false]
    cases (Program.written (fs.makeDirectories (p.parent?.getD p)).2 p a.toJson.toIndentedBytes).1 <;> simp [lift]

theorem writes_get (p : Path) (fs : FileSystem) : ¬ (get p).writes fs := by
  simp only [get, Program.writes_bind, Program.run_read, Program.writes_read, false_or]
  split
  · exact Program.writes_pure _ fs
  · split <;> exact Program.writes_pure _ fs

theorem writes_save (payload : Json) (options : SaveOptions) (now : Timestamp) (fs : FileSystem) :
    (f.save name version payload options now).writes fs ↔
      ∃ v, ((f.save name version payload options now).run fs).1 = .ok v := by
  unfold save
  cases requireSegments name version with
  | error e => simp [Program.writes_pure, Program.run_pure]
  | ok =>
    simp only [Program.writes_present, Program.run_present]
    cases fs.present (f.pathOf name version) with
    | true => simp [Program.writes_pure, Program.run_pure]
    | false =>
      simp only [Bool.false_eq_true, if_false, Program.writes_bind, Program.run_bind, writes_set]
      cases ((set (f.pathOf name version) ⟨.new name version options now, payload, []⟩).run fs).1 <;>
        simp [Program.writes_pure, Program.run_pure]

theorem writes_log (metadata : Json.Members) (fs : FileSystem) :
    (f.log name version metadata).writes fs ↔ ((f.log name version metadata).run fs).1 = .ok () := by
  unfold log
  cases requireSegments name version with
  | error e => simp [Program.writes_pure, Program.run_pure]
  | ok =>
    simp only [Program.writes_present, Program.run_present]
    cases fs.present (f.pathOf name version) with
    | false => simp [Program.writes_pure, Program.run_pure]
    | true =>
      simp only [Bool.not_true, Bool.false_eq_true, if_false, Program.writes_bind, Program.run_bind, writes_get,
        run_get_snd, false_or]
      cases ((get (f.pathOf name version)).run fs).1 with
      | error e => simp [Program.writes_pure, Program.run_pure]
      | ok a => exact writes_set _ _ fs

theorem writes_load (fs : FileSystem) : ¬ (f.load name version).writes fs := by
  unfold load
  cases requireSegments name version with
  | error e => exact Program.writes_pure _ fs
  | ok =>
    simp only [Program.writes_present]
    split
    · exact Program.writes_pure _ fs
    · exact writes_get _ fs

theorem writes_calling (c : Call) (fs : FileSystem) :
    (f.calling c).writes fs ↔ c.request.changes ∧ ((Registry.folder f).ask c fs).1.isOk := by
  obtain ⟨name, version, request⟩ := c
  unfold calling
  cases request with
  | save payload options now =>
    simp only [Program.writes_bind, Program.writes_pure, or_false, writes_save, Registry.ask, Registry.folder]
    cases ((f.save name version payload options now).run fs).1 <;>
      simp [Request.changes, Except.map, Except.isOk, Except.toBool]
  | log ms =>
    simp only [Program.writes_bind, Program.writes_pure, or_false, writes_log, Registry.ask, Registry.folder]
    cases ((f.log name version ms).run fs).1 <;> simp [Request.changes, Except.map, Except.isOk, Except.toBool]
  | load => simp [Program.writes_bind, Program.writes_pure, writes_load, Request.changes]
  | metadata => simp [Program.writes_bind, Program.writes_pure, writes_load, Request.changes]

theorem present_of_writes {request : Request} (busy : (f.calling ⟨name, version, request⟩).writes fs) :
    fs.present (f.pathOf name version) = request.isLog := by
  obtain ⟨changes, accepted⟩ := (writes_calling _ fs).mp busy
  cases request <;> simp only [Request.changes, Bool.false_eq_true] at changes
  all_goals
    simp only [Registry.ask, Registry.folder, run_save, run_log] at accepted
    cases require : requireSegments name version <;> cases there : fs.present (f.pathOf name version) <;>
      simp [there, require, Except.map, Except.isOk, Except.toBool, Request.isLog] at accepted ⊢

theorem rivals_of_writes {c d : Call} (same : c.pair = d.pair) (busy : (f.calling c).writes fs)
    (busy' : (f.calling d).writes fs) : c.request.rivals d.request := by
  obtain ⟨name, version, request⟩ := c
  obtain ⟨name', version', request'⟩ := d
  obtain ⟨rfl, rfl⟩ := Prod.mk.inj same
  exact Request.rivals_iff.mpr ⟨((writes_calling _ fs).mp busy).1, ((writes_calling _ fs).mp busy').1,
    (present_of_writes busy).symm.trans (present_of_writes busy')⟩

/-! ## Both orders -/

variable {c d : Call}

theorem inTurn_calling (c d : Call) (fs : FileSystem) :
    (f.calling c).inTurn (f.calling d) fs = (Registry.folder f).inOrder c d fs := by
  simp only [Program.inTurn, run_calling, Registry.inOrder]

theorem calling_of_refused {e : Error} (refused : requireSegments c.name c.version = .error e) :
    f.calling c = .done (.error e) := by
  obtain ⟨name, version, request⟩ := c
  unfold calling
  cases request <;> simp only [save, log, load, refused] <;> rfl

/-- How two clients may end, told by what the registry answers. -/
theorem outcome_calling {a b : Except Error Reply} (same : c.pair = d.pair) :
    Program.Outcome (f.calling c) (f.calling d) fs (a, b, fs') ↔
      (a, b, fs') = (Registry.folder f).inOrder c d fs ∨ (b, a, fs') = (Registry.folder f).inOrder d c fs ∨
        c.request.rivals d.request ∧ a.isOk ∧ b.isOk ∧
          a = ((Registry.folder f).ask c fs).1 ∧ b = ((Registry.folder f).ask d fs).1 ∧
          (fs' = ((Registry.folder f).ask c fs).2 ∨ fs' = ((Registry.folder f).ask d fs).2) := by
  rw [Program.outcome_iff, inTurn_calling, inTurn_calling]
  simp only [Program.swapped, run_calling]
  refine or_congr_right (or_congr_right ⟨?_, ?_⟩)
  · rintro ⟨busy, busy', rfl, rfl, last⟩
    have rivals := rivals_of_writes same busy busy'
    exact ⟨rivals, ((writes_calling c fs).mp busy).2, ((writes_calling d fs).mp busy').2, rfl, rfl, last⟩
  · rintro ⟨rivals, ok, ok', rfl, rfl, last⟩
    obtain ⟨changes, changes', -⟩ := Request.rivals_iff.mp rivals
    exact ⟨(writes_calling c fs).mpr ⟨changes, ok⟩, (writes_calling d fs).mpr ⟨changes', ok'⟩, rfl, rfl, last⟩

/-! ## What is lost -/

namespace Shelf

theorem exists_overwritten (shelf : f.Shelf root held fs) (require : requireSegments name version = .ok ())
    {request request' : Request} {a b : Reply} (changes : request.changes) (changes' : request'.changes)
    (done : ((Registry.folder f).ask ⟨name, version, request⟩ fs).1 = .ok a)
    (done' : ((Registry.folder f).ask ⟨name, version, request'⟩ fs).1 = .ok b) :
    ∃ turns, Program.together turns (f.calling ⟨name, version, request⟩) (f.calling ⟨name, version, request'⟩) fs =
      (.ok a, .ok b, ((Registry.folder f).ask ⟨name, version, request'⟩ fs).2) := by
  have shared := Program.together_iff (shelf.steady require) (sharing_calling require request fs)
    (sharing_calling require request' fs)
  rw [← run_calling] at done done' ⊢
  rw [← done, ← done', shared]
  exact .overwritten ((writes_calling _ fs).mpr ⟨changes, by simp [← run_calling, done, Except.isOk, Except.toBool]⟩)
    ((writes_calling _ fs).mpr ⟨changes', by simp [← run_calling, done', Except.isOk, Except.toBool]⟩) (.inr rfl)

theorem save_free (shelf : f.Shelf root held fs) (admits : f.Admits (name, version))
    (free : held (name, version) = none) (payload : Json) (options : SaveOptions) (now : Timestamp) :
    let outcome := (Registry.folder f).ask ⟨name, version, .save payload options now⟩ fs
    outcome.1 = .ok (.version (.new name version options now)) ∧
      f.Shelf root (fun pair => if pair = (name, version) then some ⟨.new name version options now, payload, []⟩
        else held pair) outcome.2 := by
  obtain ⟨answer, later, -⟩ := shelf.ask_save admits.1 payload options now
  have stored : Call.update ⟨name, version, .save payload options now⟩ (held (name, version)) =
      some ⟨.new name version options now, payload, []⟩ := by simp [Call.update, free]
  refine ⟨by rw [answer]; simp [Call.answer, Call.pair, free, admits.2], ?_⟩
  rwa [next_of_admits admits stored] at later

theorem save_after_save (shelf : f.Shelf root held fs) (admits : f.Admits (name, version))
    (free : held (name, version) = none) (payload payload' : Json) (options options' : SaveOptions)
    (now now' : Timestamp) :
    ((Registry.folder f).inOrder ⟨name, version, .save payload options now⟩
      ⟨name, version, .save payload' options' now'⟩ fs).2.1 = .error (.alreadyExists (label name version)) := by
  have later := (shelf.save_free admits free payload options now).2
  exact (later.ask_save admits.1 payload' options' now').answer.trans (by simp [Call.answer, Call.pair, Call.label])

/-- **Two saves can both be accepted.** Then only what the second one saved is there. -/
theorem saves_together (shelf : f.Shelf root held fs) (admits : f.Admits (name, version))
    (free : held (name, version) = none) (payload payload' : Json) (options options' : SaveOptions)
    (now now' : Timestamp) :
    ∃ turns s, Program.together turns (f.calling ⟨name, version, .save payload options now⟩)
        (f.calling ⟨name, version, .save payload' options' now'⟩) fs =
          (.ok (.version (.new name version options now)), .ok (.version (.new name version options' now')), s) ∧
      f.Shelf root (fun pair => if pair = (name, version) then some ⟨.new name version options' now', payload', []⟩
        else held pair) s := by
  obtain ⟨done', later⟩ := shelf.save_free admits free payload' options' now'
  obtain ⟨turns, both⟩ := shelf.exists_overwritten admits.1 rfl rfl (shelf.save_free admits free payload options now).1
    done'
  exact ⟨turns, _, both, later⟩

end Shelf

end Folder

end Artifact

open Artifact (Call Error Folder Reply)

/-- **Two clients of one folder** that ask about the same name and version end as if one had asked after the other,
in one of the two orders. Only if both save, or both log, and are both told that it was done, the folder may also be
as if one of them had never asked. All of this happens. -/
theorem Registry.folder_together (f : Folder) {root : Location} {held : String × String → Option StoredArtifact}
    {fs : FileSystem} (shelf : f.Shelf root held fs) {c d : Call} (same : c.pair = d.pair)
    (a b : Except Error Reply) (fs' : FileSystem) :
    (∃ turns, Program.together turns (f.calling c) (f.calling d) fs = (a, b, fs')) ↔
      (a, b, fs') = (Registry.folder f).inOrder c d fs ∨ (b, a, fs') = (Registry.folder f).inOrder d c fs ∨
        c.request.rivals d.request ∧ a.isOk ∧ b.isOk ∧
          a = ((Registry.folder f).ask c fs).1 ∧ b = ((Registry.folder f).ask d fs).1 ∧
          (fs' = ((Registry.folder f).ask c fs).2 ∨ fs' = ((Registry.folder f).ask d fs).2) := by
  rw [← Folder.outcome_calling same]
  obtain ⟨name, version, request⟩ := c
  obtain ⟨name', version', request'⟩ := d
  obtain ⟨rfl, rfl⟩ : name = name' ∧ version = version' := Prod.mk.inj same
  cases require : Artifact.requireSegments name version with
  | error e =>
    rw [Folder.calling_of_refused require, Folder.calling_of_refused require]
    exact Program.together_iff_of_done _ _ fs _
  | ok =>
    exact Program.together_iff (shelf.steady require) (Folder.sharing_calling require request fs)
      (Folder.sharing_calling require request' fs) _

/-- Two saves under one name and version in an empty folder. -/
def Registry.firstSave : Call := ⟨"svc", "v1", .save (.string "first") .default ⟨0, 0⟩⟩

@[inherit_doc Registry.firstSave]
def Registry.secondSave : Call := ⟨"svc", "v1", .save (.string "second") .default ⟨1, 0⟩⟩

/-- The folder `/r`. -/
def Registry.folderR : Folder := ⟨⟨[0x2f, 0x72]⟩⟩

theorem Registry.shelf_folderR : folderR.Shelf [[0x72]] (folderR.held? []) emptyFolder :=
  Folder.shelf_empty leads_emptyFolder (by decide) fun _ => nothing_emptyFolder

theorem Registry.admits_folderR : folderR.Admits ("svc", "v1") := ⟨by cbv, by cbv⟩

theorem Registry.free_folderR : folderR.held? [] ("svc", "v1") = none := by
  simp [Folder.held?, Artifact.kept?]

theorem Registry.folder_together_saves :
    ∃ turns, Program.together turns (folderR.calling firstSave) (folderR.calling secondSave) emptyFolder =
      (((Registry.folder folderR).ask firstSave emptyFolder).1,
        ((Registry.folder folderR).ask secondSave emptyFolder).1,
        ((Registry.folder folderR).ask firstSave emptyFolder).2) := by
  have saves := shelf_folderR.save_free admits_folderR free_folderR
  have first : ((Registry.folder folderR).ask firstSave emptyFolder).1.isOk := by
    rw [firstSave, (saves (.string "first") .default ⟨0, 0⟩).1]
    rfl
  have second : ((Registry.folder folderR).ask secondSave emptyFolder).1.isOk := by
    rw [secondSave, (saves (.string "second") .default ⟨1, 0⟩).1]
    rfl
  have same : firstSave.pair = secondSave.pair := rfl
  exact (Registry.folder_together folderR shelf_folderR same _ _ _).mpr
    (.inr (.inr ⟨rfl, first, second, rfl, rfl, .inl rfl⟩))

/-- Both saves are accepted, only the second payload is there, and in neither order would it have been so. -/
theorem Registry.saves_overwritten :
    ∃ turns a b s, Program.together turns (folderR.calling firstSave) (folderR.calling secondSave) emptyFolder =
        (.ok a, .ok b, s) ∧
      (Registry.folder folderR).load "svc" "v1" s = .ok ⟨.new "svc" "v1" .default ⟨1, 0⟩, .string "second", []⟩ ∧
      (.ok a, .ok b, s) ≠ (Registry.folder folderR).inOrder firstSave secondSave emptyFolder ∧
      (.ok b, .ok a, s) ≠ (Registry.folder folderR).inOrder secondSave firstSave emptyFolder := by
  have refused := shelf_folderR.save_after_save admits_folderR free_folderR
  obtain ⟨turns, s, both, later⟩ := shelf_folderR.saves_together admits_folderR free_folderR (.string "first")
    (.string "second") .default .default ⟨0, 0⟩ ⟨1, 0⟩
  refine ⟨turns, _, _, s, both, ?_, fun same => ?_, fun same => ?_⟩
  · have storable : (StoredArtifact.mk (.new "svc" "v1" .default ⟨1, 0⟩) (.string "second") []).Storable :=
      ⟨⟨by decide, .inl (by decide)⟩, ⟨by simp [Json.Tidy], by simp [Json.Numbers]⟩, .nil⟩
    have shallow : (StoredArtifact.mk (.new "svc" "v1" .default ⟨1, 0⟩) (.string "second") []).toJson.depth ≤
        Json.Document.maxDepth := by
      simp [StoredArtifact.toJson, Artifact.Version.toJson, Artifact.Kind.toJson, Json.depth, Json.membersDepth,
        Json.Document.maxDepth]
    rw [later.load_eq admits_folderR.1 fun a there => Option.some.inj there ▸ ⟨storable, shallow⟩]
    rfl
  · have second := refused (.string "first") (.string "second") .default .default ⟨0, 0⟩ ⟨1, 0⟩
    have accepted := congrArg (fun o => o.2.1) same
    simp [firstSave, secondSave, second] at accepted
  · have second := refused (.string "second") (.string "first") .default .default ⟨1, 0⟩ ⟨0, 0⟩
    have accepted := congrArg (fun o => o.2.1) same
    simp [firstSave, secondSave, second] at accepted

end ModelDepot
