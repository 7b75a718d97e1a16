import Mathlib
import ModelDepot.Proofs.Artifact.Labels
import ModelDepot.Proofs.Artifact.Rewriting
import ModelDepot.Proofs.Artifact.Versions
import ModelDepot.Proofs.Files.Trees

/-! # What is listed is what was recorded

Every save that succeeds is answered with a record. If the records under a name were made one later than the other, a
registry lists them in this order, whatever order it comes upon them in and whatever was refused or logged in between.
-/

namespace ModelDepot

open Files (Errno FileSystem Location Name Program Segment)

namespace Artifact

/-! ## Order in time -/

/-- Each record was made later than those before it. -/
def InOrder (vs : List Version) : Prop := vs.Pairwise fun v w => ¬ w.createdAt.le v.createdAt

theorem InOrder.oldestFirst_eq {vs ws : List Version} (ordered : InOrder ws) (perm : vs.Perm ws) : oldestFirst vs = ws := by
  let le (v w : Version) : Bool := v.createdAt.le w.createdAt
  have trans : ∀ u v w, le u v → le v w → le u w := fun _ _ _ => Timestamp.le_trans
  have total : ∀ v w, (le v w || le w v) = true := fun v w => by
    rw [Bool.or_eq_true]
    exact Timestamp.le_total _ _
  have sorted : (oldestFirst vs).Pairwise (le · ·) := List.pairwise_mergeSort trans total vs
  have sorted' : ws.Pairwise (le · ·) := ordered.imp fun notLe => (Timestamp.le_total _ _).resolve_right notLe
  -- No two records were made at the same time.
  have apart : ws.Pairwise fun v w => le v w → le w v → v = w := ordered.imp fun notLe _ before => absurd before notLe
  have : Std.Symm fun v w => le v w → le w v → v = w := ⟨fun _ _ same before after => (same after before).symm⟩
  have found : (oldestFirst vs).Perm ws := (List.mergeSort_perm vs le).trans perm
  refine List.Perm.eq_of_pairwise (fun v w hv hw => ?_) sorted sorted' found
  exact apart.forall_of_forall (fun _ _ _ _ => rfl) (found.subset hv) hw

/-! ## Records -/

/-- The record that a call was answered with. -/
def recordOf? : Except Error Reply → Option Version
  | .ok (.version v) => some v
  | _ => none

def Call.record? (c : Call) : Option Version :=
  match c.request with
  | .save _ options now => some (.new c.name c.version options now)
  | _ => none

theorem Call.record?_eq_some {c : Call} {v : Version} (h : c.record? = some v) : v.name = c.name ∧ v.version = c.version := by
  obtain ⟨name, version, request⟩ := c
  cases request <;> simp only [Call.record?, Option.some.injEq, reduceCtorEq] at h
  exact h ▸ ⟨rfl, rfl⟩

theorem Call.version_update (c : Call) (held : Option StoredArtifact) :
    (c.update held).map (·.version) = (held.map (·.version)).or c.record? := by
  obtain ⟨name, version, request⟩ := c
  cases request <;> cases held <;> rfl

end Artifact

namespace Registry

open Artifact (Call recordOf?)

variable {ρ : Type} (reg : Registry ρ) (name : String)

/-- The records that the saves under a name were answered with, in the order of the calls. -/
def recorded (r : ρ) : List Call → List Artifact.Version
  | [] => []
  | c :: rest =>
    (if c.name = name then (recordOf? (reg.ask c r).1).toList else []) ++ recorded (reg.ask c r).2 rest

theorem recorded_concat (r : ρ) (calls : List Call) (c : Call) :
    reg.recorded name r (calls ++ [c]) = reg.recorded name r calls ++
      if c.name = name then (recordOf? (reg.ask c (reg.after r calls)).1).toList else [] := by
  induction calls generalizing r with
  | nil => simp [recorded, after]
  | cons d rest ih => rw [List.cons_append, recorded, ih, recorded, List.append_assoc, after, after, List.foldl_cons]

end Registry

namespace Artifact

/-! ## In memory -/

namespace Memory

/-- The records that a registry holds, as it was given them. -/
def records (m : Memory) : List Version := m.artifacts.map (·.2.version)

theorem records_ask (m : Memory) (c : Call) :
    (Registry.memory.ask c m).2.records = m.records ++ (recordOf? (Registry.memory.ask c m).1).toList ∧
      ∀ v, recordOf? (Registry.memory.ask c m).1 = some v → v.name = c.name := by
  obtain ⟨name, version, request⟩ := c
  cases request with
  | save payload options now =>
    simp only [Registry.ask, Registry.memory, save]
    split
    · simp [recordOf?, Except.map]
    split
    · simp [recordOf?, Except.map]
    · simp [recordOf?, Except.map, records, add, Version.new]
  | log ms =>
    have kept : (m.modify (label name version) (·.addMetadata ms)).records = m.records := by
      simp only [records, modify, List.map_map]
      refine List.map_congr_left fun e _ => ?_
      by_cases here : e.1 = label name version <;> simp [here, StoredArtifact.addMetadata]
    simp only [Registry.ask, Registry.memory, log]
    split
    · simp [recordOf?, Except.map, kept]
    · simp [recordOf?, Except.map]
  | load | metadata =>
    simp only [Registry.ask, Registry.metadata, Registry.memory, load]
    cases m.get? (label name version) <;> simp [recordOf?, Except.map]

theorem recorded_eq (name : String) (calls : List Call) :
    Registry.memory.recorded name .empty calls = (Registry.memory.after .empty calls).records.filter (·.name == name) := by
  induction calls using List.reverseRecOn with
  | nil => rfl
  | append_singleton calls c ih =>
    obtain ⟨records, named⟩ := records_ask (Registry.memory.after .empty calls) c
    rw [Registry.recorded_concat, Registry.after_concat, records, List.filter_append, ih]
    congr 1
    cases record : recordOf? (Registry.memory.ask c (Registry.memory.after .empty calls)).1 with
    | none => simp
    | some v => by_cases here : c.name = name <;> simp [here, named v record]

end Memory

/-! ## In a folder -/

namespace Folder

variable {f : Folder} {root : Location} {held : String × String → Option StoredArtifact} {fs fs' : FileSystem}
  {calls : List Call} {name : String}

/-- The record of what calls leave under a name and a version. -/
def index (f : Folder) (calls : List Call) (pair : String × String) : Option Version :=
  (f.held? calls pair).map (·.version)

/-- The record that a call adds to what calls before it left. -/
def fresh? (f : Folder) (calls : List Call) (c : Call) : Option Version :=
  if f.Admits c.pair ∧ f.index calls c.pair = none then c.record? else none

/-- The records under a name that calls add one after the other to what calls before them left. -/
def minted (f : Folder) (name : String) (before : List Call) : List Call → List Version
  | [] => []
  | c :: rest =>
    (if c.name = name then (f.fresh? before c).toList else []) ++ f.minted name (before ++ [c]) rest

theorem minted_concat (f : Folder) (name : String) (before calls : List Call) (c : Call) :
    f.minted name before (calls ++ [c]) =
      f.minted name before calls ++ if c.name = name then (f.fresh? (before ++ calls) c).toList else [] := by
  induction calls generalizing before with
  | nil => simp [minted]
  | cons d rest ih => rw [List.cons_append, minted, ih, minted, List.append_assoc, List.append_assoc, List.singleton_append]

theorem fresh?_eq_some {c : Call} {v : Version} (h : f.fresh? calls c = some v) :
    f.index calls c.pair = none ∧ v.version = c.version := by
  unfold fresh? at h
  split at h
  · next admitted => exact ⟨admitted.2, (Call.record?_eq_some h).2⟩
  · simp at h

theorem index_concat (f : Folder) (calls : List Call) (c : Call) (pair : String × String) :
    f.index (calls ++ [c]) pair = if pair = c.pair then (f.index calls pair).or (f.fresh? calls c) else f.index calls pair := by
  unfold fresh? index
  rw [held?_concat]
  unfold next
  by_cases same : pair = c.pair
  · subst same
    by_cases admits : f.Admits c.pair
    · simp only [admits, true_and, if_true, Call.version_update]
      cases f.held? calls c.pair <;> simp
    · simp [admits]
  · simp [same]

theorem version_of_index {pair : String × String} {v : Version} (h : f.index calls pair = some v) :
    v.version = pair.2 := by
  induction calls using List.reverseRecOn with
  | nil => simp [index, held?, kept?] at h
  | append_singleton calls c ih =>
    rw [index_concat] at h
    split at h
    · next same =>
      obtain before | ⟨-, fresh⟩ := Option.or_eq_some_iff.mp h
      · exact ih before
      · exact same ▸ (fresh?_eq_some fresh).2
    · exact ih h

/-- Some records are those of what calls leave under a name. -/
structure Catalogued (f : Folder) (name : String) (calls : List Call) (vs : List Version) : Prop where
  mem : ∀ v, v ∈ vs ↔ f.index calls (name, v.version) = some v
  distinct : (vs.map (·.version)).Nodup

theorem Catalogued.concat {vs : List Version} (catalogued : f.Catalogued name calls vs) (c : Call) :
    f.Catalogued name (calls ++ [c]) (vs ++ if c.name = name then (f.fresh? calls c).toList else []) := by
  have stays : ∀ version, (name, version) ≠ c.pair ∨ f.fresh? calls c = none →
      f.index (calls ++ [c]) (name, version) = f.index calls (name, version) := by
    rintro version (other | nothing)
    · rw [index_concat, if_neg other]
    · simp [index_concat, nothing]
  by_cases here : c.name = name
  case neg =>
    have other : ∀ version, (name, version) ≠ c.pair := fun version same => here (congrArg Prod.fst same).symm
    simp only [here, if_false, List.append_nil]
    exact ⟨fun v => by rw [stays _ (.inl (other _)), catalogued.mem], catalogued.distinct⟩
  subst here
  rw [if_pos rfl]
  cases fresh : f.fresh? calls c with
  | none =>
    rw [Option.toList_none, List.append_nil]
    exact ⟨fun v => by rw [stays _ (.inr fresh), catalogued.mem], catalogued.distinct⟩
  | some w =>
    obtain ⟨free, version⟩ := fresh?_eq_some fresh
    have pair : (c.name, c.version) = c.pair := rfl
    have before : ∀ v ∈ vs, v.version ≠ c.version := by
      intro v hv same
      have there := (catalogued.mem v).mp hv
      rw [same, pair, free] at there
      simp at there
    constructor
    case mem =>
      intro v
      rw [List.mem_append, Option.mem_toList, Option.some.injEq, catalogued.mem]
      by_cases same : v.version = c.version
      · rw [same, pair, index_concat, if_pos rfl, free, fresh]
        simp
      · have other : w ≠ v := fun here => same (here ▸ version)
        rw [stays _ (.inl fun whole => same (congrArg Prod.snd whole))]
        simp [other]
    case distinct =>
      rw [List.map_append, List.nodup_append]
      refine ⟨catalogued.distinct, List.nodup_singleton _, ?_⟩
      rintro _ hv _ hw rfl
      obtain ⟨v, hv, same⟩ := List.mem_map.mp hv
      exact before v hv (by simpa [same, version] using hw)

theorem catalogued (f : Folder) (name : String) (calls : List Call) : f.Catalogued name calls (f.minted name [] calls) := by
  induction calls using List.reverseRecOn with
  | nil => exact ⟨fun v => by simp [minted, index, held?, kept?], List.nodup_nil⟩
  | append_singleton calls c ih =>
    rw [minted_concat]
    exact ih.concat c

/-! ## Calls -/

theorem record_ask (shelf : f.Shelf root held fs) (stands : f.Stands calls held) (c : Call) :
    recordOf? ((Registry.folder f).ask c fs).1 = f.fresh? calls c := by
  have free : f.index calls c.pair = none ↔ held c.pair = none := by
    rw [index, ← stands.version_eq, Option.map_eq_none_iff]
  simp only [fresh?, free]
  cases require : requireSegments c.name c.version with
  | error e =>
    rw [ask_of_refused require, if_neg fun fresh => by simp [Admits, Call.pair, require] at fresh]
    rfl
  | ok =>
    obtain ⟨name, version, request⟩ := c
    cases request with
    | save payload options now =>
      rw [(shelf.ask_save require payload options now).answer]
      simp only [Call.answer, Admits, Call.pair, require, true_and, Call.record?]
      cases held (name, version) <;> cases f.refusal name version <;> simp [recordOf?]
    | log ms =>
      simp only [Registry.ask, Call.record?, ite_self]
      cases ((Registry.folder f).log name version ms fs).1 <;> rfl
    | load =>
      simp only [Registry.ask, Call.record?, ite_self]
      cases (Registry.folder f).load name version fs <;> rfl
    | metadata =>
      simp only [Registry.ask, Call.record?, ite_self]
      cases (Registry.folder f).metadata name version fs <;> rfl

theorem Catalogued.held_of_mem {vs : List Version} (catalogued : f.Catalogued name calls vs) (stands : f.Stands calls held)
    {v : Version} (hv : v ∈ vs) : ∃ b, held (name, v.version) = some b := by
  have kept := (catalogued.mem v).mp hv
  rw [index, ← stands.version_eq, Option.map_eq_some_iff] at kept
  exact kept.imp fun _ h => h.1

/-- Below the folder are only places of names and versions that are accepted. -/
def Housed (root : Location) (fs : FileSystem) : Prop :=
  ∀ names n, names ≠ [] → fs.node? (root ++ names) = some n →
    ∃ name version, requireSegments name version = .ok () ∧ names <+: namesOf name version

theorem Housed.confined {version : String} (housed : Housed root fs) (confined : Confined root name version fs fs')
    (require : requireSegments name version = .ok ()) : Housed root fs' := by
  intro names n ne node
  by_cases own : names <+: namesOf name version
  · exact ⟨name, version, require, own⟩
  · have elsewhere : ∀ start, start <+: namesOf name version → root ++ names ≠ root ++ start := by
      rintro start prefix' same
      exact own (List.append_cancel_left same ▸ prefix')
    rw [confined _ (elsewhere _ (List.prefix_refl _)) (elsewhere _ ⟨_, rfl⟩) (elsewhere _ ⟨_, rfl⟩)] at node
    exact housed names n ne node

theorem distinct_ask (distinct : fs.Distinct) (c : Call) : ((Registry.folder f).ask c fs).2.Distinct := by
  obtain ⟨name, version, request⟩ := c
  cases request with
  | save payload options now =>
    exact save_keeps (fun _ distinct => distinct.makeDirectories _) (fun _ _ _ distinct written => distinct.write written)
      rfl distinct payload options now
  | log ms =>
    exact log_keeps (fun _ distinct => distinct.makeDirectories _) (fun _ _ _ distinct written => distinct.write written)
      rfl distinct ms
  | load | metadata => exact distinct

/-- The folder after some calls. -/
structure Stocked (f : Folder) (root : Location) (calls : List Call) (fs : FileSystem) : Prop where
  stands : ∃ held, f.Shelf root held fs ∧ f.Stands calls held
  housed : Housed root fs
  distinct : fs.Distinct

theorem Stocked.ask (stocked : f.Stocked root calls fs)
    (shallow : ∀ pair a, f.held? calls pair = some a → a.toJson.depth ≤ Json.Document.maxDepth) {c : Call}
    (fits : c.request.Fits) : f.Stocked root (calls ++ [c]) ((Registry.folder f).ask c fs).2 := by
  obtain ⟨held, shelf, stands⟩ := stocked.stands
  obtain ⟨held', shelf', stands', confined⟩ := ask_stands shelf stands shallow fits
  refine ⟨⟨held', shelf', stands'⟩, ?_, distinct_ask stocked.distinct c⟩
  cases require : requireSegments c.name c.version with
  | error e =>
    rw [ask_of_refused require]
    exact stocked.housed
  | ok => exact stocked.housed.confined confined require

section

variable (leads : fs.Leads f.root root) (directory : fs.node? root = some .directory)
  (nothing : ∀ names, names ≠ [] → fs.node? (root ++ names) = none) (distinct : fs.Distinct)
  (fits : ∀ c ∈ calls, c.request.Fits)
  (shallow : ∀ some', some' <+: calls → ∀ pair a, f.held? some' pair = some a → a.toJson.depth ≤ Json.Document.maxDepth)

include leads directory nothing distinct fits shallow

theorem stocked_after : f.Stocked root calls ((Registry.folder f).after fs calls) := by
  induction calls using List.reverseRecOn with
  | nil =>
    have none' : ∀ pair, f.held? [] pair = none := fun pair => by simp [held?, kept?]
    refine ⟨⟨f.held? [], shelf_empty leads directory nothing, fun pair => ?_⟩, ?_, distinct⟩
    · simpa only [none'] using .none
    · exact fun names n ne node => by simp [Registry.after, nothing names ne] at node
  | append_singleton calls c ih =>
    have shallow' := fun some' (h : some' <+: calls) => shallow some' (h.trans (List.prefix_append calls [c]))
    have before := ih (fun d mem => fits d (List.mem_append_left [c] mem)) shallow'
    rw [Registry.after_concat]
    exact before.ask (shallow calls (List.prefix_append _ _)) (fits c (by simp))

theorem recorded_eq (name : String) : (Registry.folder f).recorded name fs calls = f.minted name [] calls := by
  induction calls using List.reverseRecOn with
  | nil => rfl
  | append_singleton calls c ih =>
    have fits' := fun d mem => fits d (List.mem_append_left [c] mem)
    have shallow' := fun some' (h : some' <+: calls) => shallow some' (h.trans (List.prefix_append calls [c]))
    obtain ⟨held, shelf, stands⟩ := (stocked_after leads directory nothing distinct fits' shallow').stands
    rw [Registry.recorded_concat, minted_concat, ih fits' shallow', record_ask shelf stands, List.nil_append]

end

/-! ## What is listed -/

/-- Why no directory can be opened under a name, whatever is in the folder: its path is too long or holds a zero byte,
or the name is too long. -/
def refusalOfName (f : Folder) (name : String) : Option Errno :=
  (f.pathOfName name).fault?.or (if Files.maxName < (Text.utf8 name).length then some .nameTooLong else none)

theorem segment_of_requireSegment {role text : String} (h : requireSegment role text = .ok ()) :
    Segment (Text.utf8 text) := by
  unfold requireSegment at h
  split at h
  · next segment => exact segment_of_isSegment segment
  · simp at h

theorem refusalOfName_of_admits {version : String} (admits : f.Admits (name, version)) : f.refusalOfName name = none := by
  obtain ⟨require, fine⟩ := admits
  have segments := segments_of_require require
  obtain ⟨fault, short, -⟩ := Shelf.fine_of_refusal fine
  have folder : ((f.pathOfName name).child (Text.utf8 version)).fault? = none :=
    Files.Path.fault?_of_child (segments fileName.bytes (by simp [namesOf])) fault
  have path : (f.pathOfName name).fault? = none :=
    Files.Path.fault?_of_child (segments (Text.utf8 version) (by simp [namesOf])) folder
  rw [refusalOfName, path, if_neg (not_lt.mpr short), Option.or_none]

theorem refusalOfName_ne_noEntry (f : Folder) (name : String) : f.refusalOfName name ≠ some .noEntry := by
  intro missing
  obtain fault | ⟨-, long⟩ := Option.or_eq_some_iff.mp missing
  · exact (f.pathOfName name).fault?_ne_noEntry fault
  · split at long <;> simp at long

theorem names_eq (shelf : f.Shelf root held fs) (segment : Segment (Text.utf8 name)) :
    fs.names (f.pathOfName name) =
      match f.refusalOfName name with
      | some e => .error e
      | none =>
        if (fs.node? (root ++ [Text.utf8 name])).isNone then .error .noEntry
        else .ok (fs.list (root ++ [Text.utf8 name])) := by
  have located := FileSystem.locate_child shelf.leads shelf.directory segment
    (shelf.furnishable (List.cons_ne_nil (Text.utf8 name) []) (by simp)) true
  have path : f.pathOfName name = f.root.child (Text.utf8 name) := rfl
  rw [FileSystem.names, FileSystem.status, path, located, refusalOfName, path]
  cases (f.root.child (Text.utf8 name)).fault? with
  | some e => rfl
  | none =>
    by_cases long : Files.maxName < (Text.utf8 name).length
    · simp [long]
    · cases free : fs.node? (root ++ [Text.utf8 name]) <;> simp [long]

theorem run_records (shelf : f.Shelf root held fs) (stands : f.Stands calls held)
    (shallow : ∀ pair a, f.held? calls pair = some a → a.toJson.depth ≤ Json.Document.maxDepth) (versions : List String)
    (accepted : ∀ version ∈ versions, requireSegments name version = .ok ()) :
    ((records (f.pathOfName name) (versions.map Text.utf8)).run fs).1 =
      .ok (versions.filterMap fun version => f.index calls (name, version)) := by
  induction versions with
  | nil => rfl
  | cons version rest ih =>
    have later := ih fun other mem => accepted other (List.mem_cons_of_mem _ mem)
    have path : ((f.pathOfName name).child (Text.utf8 version)).join fileName = f.pathOf name version := rfl
    rw [List.map_cons, records, Program.run_present, path, shelf.present_eq (accepted version (by simp)),
      List.filterMap_cons, index, ← stands.version_eq]
    cases there : held (name, version) with
    | none => simpa using later
    | some b =>
      obtain ⟨c, read, -, drawn⟩ := stands.get shelf shallow there
      simp only [Option.isSome_some, Bool.not_true, Bool.false_eq_true, if_false, Program.run_bind, read, later,
        Program.run_pure, Except.map, drawn.version, Option.map_some]

namespace Stocked

theorem exists_versions (stocked : f.Stocked root calls fs) {names : List Name}
    (perm : names.Perm (fs.list (root ++ [Text.utf8 name]))) :
    ∃ versions : List String, names = versions.map Text.utf8 ∧ versions.Nodup ∧
      (∀ version ∈ versions, requireSegments name version = .ok ()) ∧ ∀ v ∈ f.minted name [] calls, v.version ∈ versions := by
  obtain ⟨held, shelf, stands⟩ := stocked.stands
  have spelled : ∀ n ∈ names, ∃ version, requireSegments name version = .ok () ∧ Text.utf8 version = n := by
    intro n hn
    obtain ⟨x, node⟩ := FileSystem.node?_of_mem_list (perm.subset hn)
    obtain ⟨name', version, require, start⟩ := stocked.housed [Text.utf8 name, n] x (by simp) (by simpa using node)
    simp only [namesOf, List.cons_prefix_cons] at start
    obtain rfl := Text.utf8_inj start.1
    exact ⟨version, require, start.2.1.symm⟩
  obtain ⟨versions, rfl⟩ : names ∈ Set.range (List.map Text.utf8) := by
    rw [Set.range_list_map]
    exact fun n hn => (spelled n hn).imp fun _ h => h.2
  refine ⟨versions, rfl, ?_, fun version hv => ?_, fun v hv => ?_⟩
  · exact (perm.nodup_iff.mpr (stocked.distinct.nodup_list _)).of_map _
  · obtain ⟨version', require, same⟩ := spelled _ (List.mem_map_of_mem hv)
    exact Text.utf8_inj same ▸ require
  · obtain ⟨b, there⟩ := (f.catalogued name calls).held_of_mem stands hv
    have node := (shelf.above _ b there).2
    have mem : Text.utf8 v.version ∈ fs.list (root ++ [Text.utf8 name]) :=
      FileSystem.mem_list_of_node? (by simpa using node)
    obtain ⟨version, hv', same⟩ := List.mem_map.mp (perm.symm.subset mem)
    exact Text.utf8_inj same ▸ hv'

theorem records_perm (stocked : f.Stocked root calls fs)
    (shallow : ∀ pair a, f.held? calls pair = some a → a.toJson.depth ≤ Json.Document.maxDepth) {names : List Name}
    (perm : names.Perm (fs.list (root ++ [Text.utf8 name]))) :
    ∃ ws, ((records (f.pathOfName name) names).run fs).1 = .ok ws ∧ ws.Perm (f.minted name [] calls) := by
  obtain ⟨held, shelf, stands⟩ := stocked.stands
  obtain ⟨versions, rfl, nodup, accepted, all⟩ := stocked.exists_versions perm
  refine ⟨_, run_records shelf stands shallow versions accepted, ?_⟩
  have distinct : (versions.filterMap fun version => f.index calls (name, version)).Nodup :=
    nodup.filterMap fun version version' v h h' => (version_of_index h).symm.trans (version_of_index h')
  rw [List.perm_ext_iff_of_nodup distinct ((f.catalogued name calls).distinct.of_map _)]
  intro v
  rw [List.mem_filterMap]
  constructor
  · rintro ⟨version, -, found⟩
    rw [(f.catalogued name calls).mem, version_of_index found]
    exact found
  · exact fun hv => ⟨v.version, all v hv, ((f.catalogued name calls).mem v).mp hv⟩

theorem eq_nil_of_refused (stocked : f.Stocked root calls fs) {e : Errno} (refused : f.refusalOfName name = some e) :
    f.minted name [] calls = [] := by
  obtain ⟨held, shelf, stands⟩ := stocked.stands
  refine List.eq_nil_iff_forall_not_mem.mpr fun v hv => ?_
  obtain ⟨b, there⟩ := (f.catalogued name calls).held_of_mem stands hv
  have admitted := refusalOfName_of_admits (shelf.admitted _ b there)
  simp [refused] at admitted

theorem versions_eq (stocked : f.Stocked root calls fs)
    (shallow : ∀ pair a, f.held? calls pair = some a → a.toJson.depth ≤ Json.Document.maxDepth) (ordered : InOrder (f.minted name [] calls))
    (require : requireSegment "name" name = .ok ()) :
    (Registry.folder f).versions name fs =
      match f.refusalOfName name with
      | some e => .error (.file (f.pathOfName name).text e)
      | none => .ok (f.minted name [] calls) := by
  obtain ⟨held, shelf, stands⟩ := stocked.stands
  have looked := names_eq shelf (segment_of_requireSegment require)
  simp only [Registry.folder, versions, require, Program.run_names, looked]
  cases refused : f.refusalOfName name with
  | some e =>
    have other : e ≠ .noEntry := fun missing => f.refusalOfName_ne_noEntry name (missing ▸ refused)
    cases e <;> first | rfl | exact absurd rfl other
  | none =>
    cases node : fs.node? (root ++ [Text.utf8 name]) with
    | none =>
      have empty : f.minted name [] calls = [] := by
        refine List.eq_nil_iff_forall_not_mem.mpr fun v hv => ?_
        obtain ⟨b, there⟩ := (f.catalogued name calls).held_of_mem stands hv
        simp [(shelf.above _ b there).1] at node
      simp [empty, Program.run_pure]
    | some n =>
      obtain ⟨ws, read, perm⟩ := stocked.records_perm shallow (.refl (fs.list (root ++ [Text.utf8 name])))
      simp only [Option.isNone_some, Bool.false_eq_true, if_false, Program.run_bind, Program.run_pure, read, Except.map,
        ordered.oldestFirst_eq perm]

end Stocked

end Folder

end Artifact

open Artifact (Call Folder InOrder)

/-- **What is listed under a name is what was recorded under it**, each record once and in the order of the saves, if
each of them was made later than those before it. Calls that failed add no record, metadata that was logged changes no
record, and the order in which a registry comes upon the records does not matter. In a folder a name must be one that
the system can open a directory under; under another one nothing is ever recorded, and to list it is an error. -/
theorem Registry.versions_recorded (name : String) (calls : List Call) :
    (let now := Registry.memory.after .empty calls
      let recorded := Registry.memory.recorded name .empty calls
      InOrder recorded → ∀ found, found.Perm now.artifacts → Registry.memory.versions name ⟨found⟩ = .ok recorded) ∧
    ∀ (f : Folder) (root : Location) (fs : FileSystem), fs.Distinct → fs.Leads f.root root →
      fs.node? root = some .directory → (∀ names, names ≠ [] → fs.node? (root ++ names) = none) →
      (∀ c ∈ calls, c.request.Fits) →
      (∀ some', some' <+: calls → ∀ pair a, f.held? some' pair = some a → a.toJson.depth ≤ Json.Document.maxDepth) →
      let now := (Registry.folder f).after fs calls
      let recorded := (Registry.folder f).recorded name fs calls
      InOrder recorded → Artifact.requireSegment "name" name = .ok () →
      match f.refusalOfName name with
      | some e => recorded = [] ∧ (Registry.folder f).versions name now = .error (.file (f.pathOfName name).text e)
      | none => (Registry.folder f).versions name now = .ok recorded ∧
        ∀ names found, now.names (f.pathOfName name) = .ok names → found.Perm names →
          ((Folder.records (f.pathOfName name) found).run now).1.map Artifact.oldestFirst = .ok recorded := by
  constructor
  · intro now recorded ordered found perm
    have perm : (found.map (·.2.version)).Perm now.records := perm.map _
    have filtered := perm.filter (·.name == name)
    rw [← Artifact.Memory.recorded_eq] at filtered
    exact congrArg Except.ok (ordered.oldestFirst_eq filtered)
  · intro f root fs distinct leads directory nothing fits shallow now recorded ordered require
    have stocked := Folder.stocked_after leads directory nothing distinct fits shallow
    have minted : recorded = f.minted name [] calls :=
      Folder.recorded_eq leads directory nothing distinct fits shallow name
    rw [minted] at ordered ⊢
    have versions := stocked.versions_eq (shallow calls (List.prefix_refl _)) ordered require
    obtain ⟨held, shelf, -⟩ := stocked.stands
    have looked := Folder.names_eq shelf (Folder.segment_of_requireSegment require)
    cases refused : f.refusalOfName name with
    | some e =>
      rw [refused] at versions
      exact ⟨stocked.eq_nil_of_refused refused, versions⟩
    | none =>
      rw [refused] at versions looked
      refine ⟨versions, fun names found there perm => ?_⟩
      have looked := there.symm.trans looked
      dsimp only at looked
      split at looked
      · simp at looked
      obtain rfl := Except.ok.inj looked
      obtain ⟨ws, read, perm'⟩ := stocked.records_perm (shallow calls (List.prefix_refl _)) perm
      rw [read]
      exact congrArg Except.ok (ordered.oldestFirst_eq perm')

theorem Registry.distinct_emptyFolder : emptyFolder.Distinct := by simp [FileSystem.Distinct, emptyFolder]

theorem Registry.versions_recorded_oneRefused :
    let records : List Artifact.Version := [.new "svc" "v1" .deployment ⟨0, 0⟩, .new "svc" "v2" .default ⟨2, 0⟩]
    let f : Folder := ⟨⟨[0x2f, 0x72]⟩⟩
    Registry.memory.versions "svc" (Registry.memory.after .empty oneRefused) = .ok records ∧
      (Registry.folder f).versions "svc" ((Registry.folder f).after emptyFolder oneRefused) = .ok records := by
  intro records f
  have fits : ∀ c ∈ oneRefused, c.request.Fits := by
    have dated : ∀ s ∈ [0, 1, 2], Timestamp.OnCalendar ⟨s, 0⟩ := by
      simp only [List.mem_cons, List.not_mem_nil, or_false, forall_eq_or_imp, forall_eq]
      refine ⟨⟨by decide, .inl (by decide)⟩, ⟨by decide, .inl (by decide)⟩, ⟨by decide, .inl (by decide)⟩⟩
    simp [oneRefused, Artifact.Request.Fits, Json.Numbers, Json.NumbersMembers, dated]
  have shallow : ∀ some', some' <+: oneRefused → ∀ pair a, f.held? some' pair = some a →
      a.toJson.depth ≤ Json.Document.maxDepth := fun _ => Folder.depth_of_held? shallow_oneRefused
  have ordered : InOrder records := by simp [records, InOrder, Artifact.Version.new, Timestamp.le]
  have inMemory : Registry.memory.recorded "svc" .empty oneRefused = records := rfl
  have inFolder : (Registry.folder f).recorded "svc" emptyFolder oneRefused = records := by
    rw [Folder.recorded_eq leads_emptyFolder (by decide) (fun _ => nothing_emptyFolder) distinct_emptyFolder fits shallow]
    cbv
  obtain ⟨memory, folder⟩ := Registry.versions_recorded "svc" oneRefused
  have listed := folder f [[0x72]] emptyFolder distinct_emptyFolder leads_emptyFolder (by decide)
    (fun _ => nothing_emptyFolder) fits shallow (inFolder ▸ ordered) (by decide)
  have fine : f.refusalOfName "svc" = none := by decide +kernel
  rw [fine, inFolder] at listed
  exact ⟨inMemory ▸ memory (inMemory ▸ ordered) _ (.refl _), listed.1⟩

/-- A name with a zero byte in it may be used, and nothing is saved under it. -/
theorem Registry.versions_zeroByte :
    let f : Folder := ⟨⟨[0x2f, 0x72]⟩⟩
    Artifact.requireSegment "name" "a\x00" = .ok () ∧ (Registry.folder f).recorded "a\x00" emptyFolder [] = [] ∧
      (Registry.folder f).versions "a\x00" ((Registry.folder f).after emptyFolder []) =
        .error (.file (f.pathOfName "a\x00").text .invalidPath) := by
  intro f
  have require : Artifact.requireSegment "name" "a\x00" = .ok () := by decide +kernel
  have zero : (f.pathOfName "a\x00").bytes.contains 0 = true := by decide +kernel
  have refused : emptyFolder.names (f.pathOfName "a\x00") = .error .invalidPath := by
    simp only [FileSystem.names, FileSystem.status, FileSystem.locate, zero, if_true]
  refine ⟨require, rfl, ?_⟩
  simp only [Registry.after, List.foldl_nil, Registry.folder, Folder.versions, require, Program.run_names, refused,
    Program.run_pure]

end ModelDepot
