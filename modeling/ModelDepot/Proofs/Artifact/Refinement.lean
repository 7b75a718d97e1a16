import Mathlib
import ModelDepot.Proofs.Artifact.Shelves

/-! # Histories of the registry in a folder

A folder that was empty holds after any calls what the calls leave in a map from names and versions to
artifacts, as long as the documents can be read back. No call touches the file of another name and version, or
anything outside the folder.
-/

namespace ModelDepot

open Files (FileSystem Location Path)
open Json (Members)

/-! ## What can be read back -/

namespace Artifact

/-- What is stored for a request is read back. -/
def Request.Storable : Request → Prop
  | .save payload _ now => payload.ReadBack ∧ now.OnCalendar
  | .log ms => ms.ReadBack
  | .load | .metadata => True

/-- What is stored for a request does not nest too deep for a document. -/
def Request.Shallow : Request → Prop
  | .save payload _ _ => payload.depth ≤ 126
  | .log ms => Json.membersDepth ms ≤ 125
  | .load | .metadata => True

theorem kept?_induction {P : StoredArtifact → Prop} {Q : Request → Prop}
    (saved : ∀ name version payload options now, Q (.save payload options now) →
      P ⟨.new name version options now, payload, []⟩)
    (logged : ∀ a ms, P a → Q (.log ms) → P (a.addMetadata ms)) {calls : List Call} (all : ∀ c ∈ calls, Q c.request)
    {a : StoredArtifact} (kept : kept? calls = some a) : P a := by
  induction calls using List.reverseRecOn generalizing a with
  | nil => simp [kept?] at kept
  | append_singleton calls c ih =>
    have before : ∀ b, kept? calls = some b → P b := fun b => ih fun d mem => all d (by simp [mem])
    have here := all c (by simp)
    rw [kept?_concat] at kept
    obtain ⟨name, version, request⟩ := c
    cases held : kept? calls with
    | none =>
      cases request <;> simp only [Call.update, held, Option.some.injEq, reduceCtorEq] at kept
      exact kept ▸ saved _ _ _ _ _ here
    | some b =>
      cases request <;> simp only [Call.update, held, Option.some.injEq] at kept
      case log ms => exact kept ▸ logged b ms (before b held) here
      all_goals exact kept ▸ before b held

theorem storable_of_kept? {calls : List Call} (storable : ∀ c ∈ calls, c.request.Storable) {a : StoredArtifact}
    (kept : kept? calls = some a) : a.Storable :=
  kept?_induction (P := StoredArtifact.Storable) (Q := Request.Storable)
    (fun _ _ _ _ _ h => ⟨h.2, h.1, .nil⟩) (fun _ _ before h => before.addMetadata h) storable kept

theorem depth_of_kept? {calls : List Call} (shallow : ∀ c ∈ calls, c.request.Shallow) {a : StoredArtifact}
    (kept : kept? calls = some a) : a.toJson.depth ≤ Json.Document.maxDepth := by
  have parts : a.payload.depth ≤ 126 ∧ Json.membersDepth a.metadata ≤ 125 := by
    refine kept?_induction (P := fun a => a.payload.depth ≤ 126 ∧ Json.membersDepth a.metadata ≤ 125)
      (Q := Request.Shallow) (fun _ _ _ _ _ h => ⟨h, by simp [Json.membersDepth]⟩) (fun a ms before h => ?_) shallow kept
    exact ⟨before.1, Json.membersDepth_extend _ _ before.2 h⟩
  simp only [StoredArtifact.toJson, Version.toJson, Kind.toJson, Json.depth, Json.membersDepth, Json.Document.maxDepth]
  omega

namespace Folder

variable {f : Folder} {root : Location} {fs : FileSystem}

/-! ## Any number of calls -/

theorem kept?_of_held? {calls : List Call} {pair : String × String} {a : StoredArtifact}
    (there : f.held? calls pair = some a) : kept? (calls.filter (·.pair = pair)) = some a := by
  unfold held? at there
  split at there
  · exact there
  · simp at there

theorem depth_of_held? {calls : List Call} (shallow : ∀ c ∈ calls, c.request.Shallow) {some' : List Call}
    (before : some' <+: calls) (pair : String × String) (a : StoredArtifact) (there : f.held? some' pair = some a) :
    a.toJson.depth ≤ Json.Document.maxDepth :=
  depth_of_kept? (fun c mem => shallow c (before.subset (List.mem_filter.mp mem).1)) (kept?_of_held? there)

theorem shelf_empty (leads : fs.Leads f.root root) (directory : fs.node? root = some .directory)
    (nothing : ∀ names, names ≠ [] → fs.node? (root ++ names) = none) : f.Shelf root (f.held? []) fs := by
  have none' : ∀ pair, f.held? [] pair = none := fun pair => by simp [held?, kept?]
  constructor
  case leads => exact leads
  case directory => exact directory
  case file => exact fun pair => by rw [none', place, nothing _ (by simp [namesOf])]; rfl
  case admitted => exact fun pair a there => by simp [none'] at there
  case above => exact fun pair a there => by simp [none'] at there
  case below => exact fun names n ne node => by simp [nothing names ne] at node

theorem ask_of_refused {c : Call} {e : Error} (refused : requireSegments c.name c.version = .error e) (fs : FileSystem) :
    (Registry.folder f).ask c fs = (.error e, fs) := by
  obtain ⟨name, version, request⟩ := c
  cases request <;>
    simp [Registry.ask, Registry.metadata, Registry.folder, run_save, run_log, run_load, refused, Except.map]

theorem readable_of_held? {calls : List Call} (storable : ∀ c ∈ calls, c.request.Storable)
    (shallow : ∀ pair a, f.held? calls pair = some a → a.toJson.depth ≤ Json.Document.maxDepth)
    {pair : String × String} {a : StoredArtifact} (there : f.held? calls pair = some a) :
    a.Storable ∧ a.toJson.depth ≤ Json.Document.maxDepth :=
  ⟨storable_of_kept? (fun c mem => storable c (List.mem_filter.mp mem).1) (kept?_of_held? there), shallow pair a there⟩

/-- What one call does to a folder that holds what calls before it left. -/
theorem ask_after {calls : List Call} (shelf : f.Shelf root (f.held? calls) fs)
    (storable : ∀ c ∈ calls, c.request.Storable)
    (shallow : ∀ pair a, f.held? calls pair = some a → a.toJson.depth ≤ Json.Document.maxDepth) (next : Call) :
    ((Registry.folder f).ask next fs).1 = f.expected calls next ∧
      f.Shelf root (f.held? (calls ++ [next])) ((Registry.folder f).ask next fs).2 ∧
      Confined root next.name next.version fs ((Registry.folder f).ask next fs).2 := by
  rw [held?_concat]
  cases require : requireSegments next.name next.version with
  | error e =>
    have idle : f.next next (f.held? calls) = f.held? calls :=
      next_of_idle fun admits => absurd (require.symm.trans admits.1) (by simp)
    rw [ask_of_refused require, idle]
    exact ⟨by simp [expected, require], shelf, fun _ _ _ _ => rfl⟩
  | ok =>
    have done := shelf.ask next require fun a there => readable_of_held? storable shallow there
    exact ⟨by simp only [done.answer, expected, require], done.shelf, done.confined⟩

theorem shelf_after (empty : f.Shelf root (f.held? []) fs) {calls : List Call}
    (storable : ∀ c ∈ calls, c.request.Storable)
    (shallow : ∀ some', some' <+: calls → ∀ pair a, f.held? some' pair = some a →
      a.toJson.depth ≤ Json.Document.maxDepth) :
    f.Shelf root (f.held? calls) ((Registry.folder f).after fs calls) := by
  induction calls using List.reverseRecOn with
  | nil => exact empty
  | append_singleton calls c ih =>
    have storable' := fun d mem => storable d (List.mem_append_left [c] mem)
    have before := ih storable' fun some' h => shallow some' (h.trans (List.prefix_append _ _))
    rw [Registry.after_concat]
    exact (ask_after before storable' (shallow calls (List.prefix_append _ _)) c).2.1

end Folder

end Artifact

open Artifact (Call Folder)

/-- **The registry in a folder refines a map** from names and versions to artifacts. Every answer is that of
the map, every file is the document of what the map has there, and no call changes the file of another name and
version or anything that is not in the folder. -/
theorem Registry.folder_refines (f : Folder) {fs : FileSystem} {root : Location} (leads : fs.Leads f.root root)
    (directory : fs.node? root = some .directory) (nothing : ∀ names, names ≠ [] → fs.node? (root ++ names) = none)
    (before : List Call) (next : Call) (storable : ∀ c ∈ before, c.request.Storable)
    (shallow : ∀ some', some' <+: before → ∀ pair a, f.held? some' pair = some a →
      a.toJson.depth ≤ Json.Document.maxDepth) :
    let now := (Registry.folder f).after fs before
    let outcome := (Registry.folder f).ask next now
    outcome.1 = f.expected before next ∧
      (∀ pair, outcome.2.node? (Folder.place root pair) =
        (f.held? (before ++ [next]) pair).map fun a => .file a.toJson.toIndentedBytes) ∧
      (∀ pair, pair ≠ next.pair → outcome.2.node? (Folder.place root pair) = now.node? (Folder.place root pair)) ∧
      ∀ l, (∀ names, names ≠ [] → l ≠ root ++ names) → outcome.2.node? l = now.node? l := by
  intro now outcome
  have shelf : f.Shelf root (f.held? before) now :=
    Folder.shelf_after (Folder.shelf_empty leads directory nothing) storable shallow
  obtain ⟨answer, later, confined⟩ := Folder.ask_after shelf storable (shallow before (List.prefix_refl _)) next
  refine ⟨answer, later.file, fun pair other => ?_, fun l outside => ?_⟩
  · exact confined _ (mt Folder.place_inj other) (by simp [Folder.place, Folder.namesOf])
      (by simp [Folder.place, Folder.namesOf])
  · exact confined l (outside _ (by simp [Folder.namesOf])) (outside _ (by simp)) (outside _ (by simp))

/-- An empty folder `/r`, and calls of which one is refused. -/
def Registry.emptyFolder : FileSystem := ⟨[([[0x72]], .directory)], []⟩

@[inherit_doc Registry.emptyFolder]
def Registry.oneRefused : List Call := [
  ⟨"svc", "v1", .save (.string "model") .deployment ⟨0, 0⟩⟩,
  ⟨"svc", "..", .save .null .default ⟨1, 0⟩⟩,
  ⟨"svc", "v1", .log [("stage", .string "test")]⟩,
  ⟨"svc", "v2", .save .null .default ⟨2, 0⟩⟩,
  ⟨"svc", "v1", .log [("stage", .string "live")]⟩]

theorem Registry.leads_emptyFolder : emptyFolder.Leads ⟨[0x2f, 0x72]⟩ [[0x72]] :=
  ⟨Files.maxLinks, .idle (by decide) (.inl rfl) (.down (by decide) ⟨by decide, by decide, by decide, by decide⟩
    (show _ = some .directory by decide) (by simp [Files.Node.IsLink]) (.stay _ _))⟩

theorem Registry.nothing_emptyFolder {names : List Files.Name} (ne : names ≠ []) :
    emptyFolder.node? ([[0x72]] ++ names) = none := by
  obtain ⟨n, rest, rfl⟩ := List.exists_cons_of_ne_nil ne
  simp [emptyFolder, Files.FileSystem.node?, List.lookup_cons]

theorem Registry.shallow_oneRefused : ∀ c ∈ oneRefused, c.request.Shallow := by
  simp [oneRefused, Artifact.Request.Shallow, Json.depth, Json.membersDepth]

theorem Registry.folder_refines_oneRefused :
    let f : Folder := ⟨⟨[0x2f, 0x72]⟩⟩
    ((Registry.folder f).ask ⟨"svc", "v1", .load⟩ ((Registry.folder f).after emptyFolder oneRefused)).1 =
      .ok (.artifact ⟨.new "svc" "v1" .deployment ⟨0, 0⟩, .string "model", [("stage", .string "live")]⟩) := by
  intro f
  have storable : ∀ c ∈ oneRefused, c.request.Storable := by
    have dated : ∀ s ∈ [0, 1, 2], Timestamp.OnCalendar ⟨s, 0⟩ := by
      simp only [List.mem_cons, List.not_mem_nil, or_false, forall_eq_or_imp, forall_eq]
      refine ⟨⟨by decide, .inl (by decide)⟩, ⟨by decide, .inl (by decide)⟩, ⟨by decide, .inl (by decide)⟩⟩
    have text : ∀ s, Json.ReadBack (.string s) := fun s => ⟨by simp [Json.Tidy], by simp [Json.Numbers]⟩
    have null : Json.ReadBack .null := ⟨by simp [Json.Tidy], by simp [Json.Numbers]⟩
    have stage : ∀ s, Json.Members.ReadBack [("stage", .string s)] := fun s =>
      ⟨by simp [Json.Tidy, Json.TidyMembers, Members.Sorted], by simp [Json.Numbers, Json.NumbersMembers]⟩
    simp only [oneRefused, List.mem_cons, List.not_mem_nil, or_false, forall_eq_or_imp, forall_eq]
    exact ⟨⟨text _, dated 0 (by simp)⟩, ⟨null, dated 1 (by simp)⟩, stage _, ⟨null, dated 2 (by simp)⟩, stage _⟩
  have refined := Registry.folder_refines f leads_emptyFolder (by decide) (fun _ => nothing_emptyFolder) oneRefused
    ⟨"svc", "v1", .load⟩ storable fun _ => Folder.depth_of_held? shallow_oneRefused
  rw [refined.1]
  cbv

end ModelDepot
