import ModelDepot.Proofs.Artifact.Refinement
import ModelDepot.Proofs.Json.Rereading

/-! # Artifacts that are written again

Metadata is added to an artifact by reading its file and writing it anew, and reading may change numbers. What stays
is the record of the artifact, which keys its metadata has, and how deep its document nests. So the folder of a registry
holds what calls leave in a map but for such numbers, whatever is saved and logged.
-/

namespace ModelDepot

open Files (FileSystem Location)
open Json (Members Number)

namespace StoredArtifact

/-- What can be written and read any number of times: the time has a date, and whole numbers have 64 bits. -/
structure Legible (a : StoredArtifact) : Prop where
  dated : a.version.createdAt.OnCalendar
  payload : a.payload.Numbers Number.Fits
  metadata : Json.NumbersMembers Number.Fits a.metadata
  sorted : Members.Sorted a.metadata

/-- An artifact after some readings: its record is the same, and its document nests no deeper. -/
structure Drawn (b a : StoredArtifact) : Prop where
  version : b.version = a.version
  payload : b.payload.depth ≤ a.payload.depth
  metadata : Members.Within b.metadata a.metadata

variable {a b c : StoredArtifact}

theorem Drawn.refl (a : StoredArtifact) : a.Drawn a := ⟨rfl, le_refl _, .refl _⟩

theorem Drawn.trans (h : c.Drawn b) (h' : b.Drawn a) : c.Drawn a :=
  ⟨h.version.trans h'.version, h.payload.trans h'.payload, h.metadata.trans h'.metadata⟩

theorem Drawn.addMetadata (h : b.Drawn a) (more : Members) : (b.addMetadata more).Drawn (a.addMetadata more) :=
  ⟨h.version, h.payload, h.metadata.extend more⟩

theorem Drawn.depth_le (h : b.Drawn a) : b.toJson.depth ≤ a.toJson.depth := by
  have := h.payload
  have := h.metadata.membersDepth_le
  simp only [toJson, h.version, Json.depth, Json.membersDepth]
  omega

theorem Legible.addMetadata (h : a.Legible) {more : Members} (fits : Json.NumbersMembers Number.Fits more) :
    (a.addMetadata more).Legible where
  dated := h.dated
  payload := h.payload
  metadata := by
    have before := h.metadata
    rw [Json.numbersMembers_iff] at before fits ⊢
    exact fun m mem => (Members.mem_extend _ _ m mem).elim (before m) (fits m)
  sorted := Members.sorted_extend _ _ h.sorted

/-- **An artifact is read again**, and what is read can be written and read in its turn. -/
theorem Legible.ofBytes? (h : a.Legible) (shallow : a.toJson.depth ≤ Json.Document.maxDepth) :
    ∃ b, decoder.ofBytes? a.toJson.toIndentedBytes = some b ∧ b.Legible ∧ b.Drawn a := by
  obtain ⟨deep, deep'⟩ := depths_of_shallow shallow
  obtain ⟨payload, read, fits, less⟩ := Json.exists_toJson?_spelled a.payload h.payload 126 deep
  obtain ⟨members, read', fits', within⟩ := Json.exists_membersToJson?_spelledMembers a.metadata h.metadata 125 deep'
  have sorted := within.sorted h.sorted
  have dictionary : Json.Decoder.dictionary 126 (Json.object a.metadata).spelled = some members := by
    rw [Json.spelled, Json.Decoder.dictionary, read', Option.map_some, Members.ofList_of_sorted _ sorted]
  exact ⟨⟨a.version, payload, members⟩, ofBytes?_of_parts h.dated read dictionary, ⟨h.dated, fits, fits', sorted⟩,
    ⟨rfl, less, within⟩⟩

end StoredArtifact

open StoredArtifact (Drawn Legible)

namespace Artifact

/-- The times of a request have dates, and its whole numbers have 64 bits. -/
def Request.Fits : Request → Prop
  | .save payload _ now => payload.Numbers Number.Fits ∧ now.OnCalendar
  | .log ms => Json.NumbersMembers Number.Fits ms
  | .load | .metadata => True

namespace Folder

variable {f : Folder} {root : Location} {held : String × String → Option StoredArtifact} {fs : FileSystem}
  {calls : List Call}

/-- What is held is what calls leave in a map, after some readings. -/
def Stands (f : Folder) (calls : List Call) (held : String × String → Option StoredArtifact) : Prop :=
  ∀ pair, Option.Rel (fun b a => b.Drawn a ∧ b.Legible) (held pair) (f.held? calls pair)

namespace Stands

theorem isSome_eq (stands : f.Stands calls held) (pair : String × String) :
    (held pair).isSome = (f.held? calls pair).isSome := by
  match held pair, f.held? calls pair, stands pair with
  | _, _, .some _ => rfl
  | _, _, .none => rfl

theorem version_eq (stands : f.Stands calls held) (pair : String × String) :
    (held pair).map (·.version) = (f.held? calls pair).map (·.version) := by
  match held pair, f.held? calls pair, stands pair with
  | _, _, .some h => exact congrArg some h.1.version
  | _, _, .none => rfl

theorem legible (stands : f.Stands calls held) {pair : String × String} {b : StoredArtifact} (there : held pair = some b) :
    b.Legible ∧ ∃ a, f.held? calls pair = some a ∧ b.Drawn a := by
  have related := stands pair
  rw [there] at related
  generalize f.held? calls pair = kept at related
  obtain ⟨drawn, legible⟩ := related
  exact ⟨legible, _, rfl, drawn⟩

theorem get (stands : f.Stands calls held) (shelf : f.Shelf root held fs) {name version : String}
    (shallow : ∀ pair a, f.held? calls pair = some a → a.toJson.depth ≤ Json.Document.maxDepth)
    {b : StoredArtifact} (there : held (name, version) = some b) :
    ∃ c, (Folder.get (f.pathOf name version)).run fs = (.ok c, fs) ∧ c.Legible ∧ c.Drawn b := by
  obtain ⟨legible, a, kept, drawn⟩ := stands.legible there
  obtain ⟨c, decoded, legible', drawn'⟩ := legible.ofBytes? (drawn.depth_le.trans (shallow _ a kept))
  have read : fs.read (f.pathOf name version) = .ok b.toJson.toIndentedBytes := by
    rw [FileSystem.read, shelf.status_of_held there]
  refine ⟨c, ?_, legible', drawn'⟩
  simp only [Folder.get, Files.Program.run_bind, Files.Program.run_read, read, decoded]
  rfl

theorem next (stands : f.Stands calls held) {c : Call} (fits : c.request.Fits) (plain : ∀ ms, c.request ≠ .log ms) :
    f.Stands (calls ++ [c]) (f.next c held) := by
  intro pair
  rw [held?_concat]
  unfold Folder.next
  split
  · obtain ⟨name, version, request⟩ := c
    match held pair, f.held? calls pair, stands pair with
    | _, _, .some h => cases request <;> simp only [Call.update] <;> first | exact .some h | exact absurd rfl (plain _)
    | _, _, .none =>
      cases request <;> simp only [Call.update] <;> try exact .none
      exact .some ⟨.refl _, fits.2, fits.1, by simp [Json.NumbersMembers], .nil⟩
  · exact stands pair

theorem idle (stands : f.Stands calls held) {c : Call}
    (idle : f.Admits c.pair → c.update (f.held? calls c.pair) = f.held? calls c.pair) : f.Stands (calls ++ [c]) held := by
  intro pair
  rw [held?_concat, next_of_idle idle]
  exact stands pair

theorem log (stands : f.Stands calls held) (shelf : f.Shelf root held fs)
    (shallow : ∀ pair a, f.held? calls pair = some a → a.toJson.depth ≤ Json.Document.maxDepth) {name version : String}
    (require : requireSegments name version = .ok ()) {ms : Members} (fits : Json.NumbersMembers Number.Fits ms) :
    ∃ held', f.Shelf root held' ((f.log name version ms).run fs).2 ∧
      f.Stands (calls ++ [⟨name, version, .log ms⟩]) held' ∧ Confined root name version fs ((f.log name version ms).run fs).2 := by
  simp only [run_log, require, shelf.present_eq require]
  cases there : held (name, version) with
  | none =>
    have absent : f.held? calls (name, version) = none := by simpa [there] using (stands.isSome_eq (name, version)).symm
    exact ⟨held, shelf, stands.idle fun _ => by simp [Call.update, Call.pair, absent], fun _ _ _ _ => rfl⟩
  | some b =>
    obtain ⟨-, a, kept, drawn⟩ := stands.legible there
    obtain ⟨c, read, legible, drawn'⟩ := stands.get shelf shallow there
    have admits := shelf.admitted _ b there
    obtain ⟨fs', written, shelf', confined⟩ := shelf.set_admitted admits (c.addMetadata ms)
    simp only [Option.isSome_some, Bool.not_true, Bool.false_eq_true, if_false, read, written]
    have next : f.next ⟨name, version, .log ms⟩ (f.held? calls) = fun pair =>
        if pair = (name, version) then some (a.addMetadata ms) else f.held? calls pair :=
      next_of_admits admits (by simp [Call.update, Call.pair, kept])
    refine ⟨_, shelf', fun pair => ?_, confined⟩
    rw [held?_concat, next]
    by_cases same : pair = (name, version)
    · simp only [same, if_true]
      exact .some ⟨(drawn'.trans drawn).addMetadata ms, legible.addMetadata fits⟩
    · simp only [same, if_false]
      exact stands pair

end Stands

/-- **One call** on a folder that holds what calls before it left, after some readings. -/
theorem ask_stands (shelf : f.Shelf root held fs) (stands : f.Stands calls held)
    (shallow : ∀ pair a, f.held? calls pair = some a → a.toJson.depth ≤ Json.Document.maxDepth) {c : Call}
    (fits : c.request.Fits) :
    ∃ held', f.Shelf root held' ((Registry.folder f).ask c fs).2 ∧ f.Stands (calls ++ [c]) held' ∧
      Confined root c.name c.version fs ((Registry.folder f).ask c fs).2 := by
  cases require : requireSegments c.name c.version with
  | error e =>
    have never : ¬ f.Admits c.pair := fun admits => by simp [Call.pair, Admits, require] at admits
    rw [ask_of_refused require]
    exact ⟨held, shelf, stands.idle fun admits => absurd admits never, fun _ _ _ _ => rfl⟩
  | ok =>
    obtain ⟨name, version, request⟩ := c
    cases request with
    | save payload options now =>
      have refined := shelf.ask_save require payload options now
      exact ⟨_, refined.shelf, stands.next fits (by simp), refined.confined⟩
    | log ms => exact stands.log shelf shallow require fits
    | load | metadata => exact ⟨held, shelf, stands.idle fun _ => by simp [Call.update], fun _ _ _ _ => rfl⟩

end Folder

end Artifact

end ModelDepot
