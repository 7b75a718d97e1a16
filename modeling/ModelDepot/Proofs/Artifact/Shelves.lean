import ModelDepot.Proofs.Artifact.Folder
import ModelDepot.Proofs.Artifact.Histories
import ModelDepot.Proofs.Artifact.Storing
import ModelDepot.Proofs.Files.Making

/-! # The registry in a folder is a map

What is in the folder of a registry are the documents of the artifacts that are held, each at the place of its
name and version, and the directories above them. Every call keeps it so.
-/

namespace ModelDepot

open Files (FileSystem Location Name Node Path Program Segment Spot)

namespace Artifact

namespace Folder

variable (f : Folder)

/-! ## What a folder holds -/

/-- Why nothing can be stored under a name and a version, whatever is in the folder: the paths are too long or
hold a zero byte, or one of the names is too long. -/
def refusal (name version : String) : Option Error :=
  let folder := (f.pathOfName name).join (.ofText version)
  match folder.fault? with
  | some e => some (.file folder.text e)
  | none =>
    if Files.maxName < (Text.utf8 name).length ∨ Files.maxName < (Text.utf8 version).length then
      some (.file folder.text .nameTooLong)
    else (f.pathOf name version).fault?.map (.file (f.pathOf name version).text ·)

/-- Something can be stored under a name and a version. -/
def Admits (pair : String × String) : Prop :=
  requireSegments pair.1 pair.2 = .ok () ∧ f.refusal pair.1 pair.2 = none

instance (pair : String × String) : Decidable (f.Admits pair) := inferInstanceAs (Decidable (_ ∧ _))

/-- The artifact that calls leave under a name and a version. -/
def held? (calls : List Call) (pair : String × String) : Option StoredArtifact :=
  if f.Admits pair then kept? (calls.filter (·.pair = pair)) else none

/-- The answer to a call after others, of which only those about the same name and version count. -/
def expected (before : List Call) (next : Call) : Except Error Reply :=
  match requireSegments next.name next.version with
  | .error e => .error e
  | .ok () => next.answer (f.refusal next.name next.version) (f.held? before next.pair)

/-- The place of the file of an artifact. -/
def place (root : Location) (pair : String × String) : Location := root ++ namesOf pair.1 pair.2

theorem place_inj {root : Location} {pair pair' : String × String} (same : place root pair = place root pair') :
    pair = pair' := by
  have names := List.append_cancel_left same
  simp only [namesOf, List.cons.injEq, and_true] at names
  exact Prod.ext (Text.utf8_inj names.1) (Text.utf8_inj names.2)

/-- A call changes what is held under its own name and version. -/
def next (c : Call) (held : String × String → Option StoredArtifact) (pair : String × String) :
    Option StoredArtifact :=
  if pair = c.pair ∧ f.Admits pair then c.update (held pair) else held pair

theorem held?_concat (calls : List Call) (c : Call) : f.held? (calls ++ [c]) = f.next c (f.held? calls) := by
  funext pair
  unfold held? next
  by_cases admits : f.Admits pair
  · by_cases same : pair = c.pair
    · subst same
      simp [admits, kept?_concat]
    · simp [admits, same, Ne.symm same]
  · simp [admits]

/-- The folder at `root` holds artifacts: their files and the directories above them, and nothing else. -/
structure Shelf (root : Location) (held : String × String → Option StoredArtifact) (fs : FileSystem) : Prop where
  leads : fs.Leads f.root root
  directory : fs.node? root = some .directory
  file : ∀ pair, fs.node? (place root pair) = (held pair).map fun a => .file a.toJson.toIndentedBytes
  admitted : ∀ pair a, held pair = some a → f.Admits pair
  above : ∀ pair a, held pair = some a →
    fs.node? (root ++ [Text.utf8 pair.1]) = some .directory ∧
      fs.node? (root ++ [Text.utf8 pair.1, Text.utf8 pair.2]) = some .directory
  below : ∀ names n, names ≠ [] → fs.node? (root ++ names) = some n →
    n = .directory ∧ names.length ≤ 2 ∨ (∃ bytes, n = .file bytes) ∧ names.length = 3

variable {f} {root : Location} {held : String × String → Option StoredArtifact} {fs fs' : FileSystem}
  {name version : String} {a : StoredArtifact}

namespace Shelf

theorem not_isLink (shelf : f.Shelf root held fs) {names : List Name} {n : Node} (ne : names ≠ [])
    (node : fs.node? (root ++ names) = some n) : ¬ n.IsLink := by
  obtain ⟨rfl, -⟩ | ⟨⟨bytes, rfl⟩, -⟩ := shelf.below names n ne node <;> simp [Node.IsLink]

theorem furnishable (shelf : f.Shelf root held fs) {names : List Name} (ne : names ≠ []) (few : names.length ≤ 2) :
    fs.Furnishable (root ++ names) := by
  cases node : fs.node? (root ++ names) with
  | none => exact .inl node
  | some n =>
    obtain ⟨rfl, -⟩ | ⟨-, three⟩ := shelf.below names n ne node
    · exact .inr node
    · omega

theorem fine_of_refusal (admits : f.refusal name version = none) :
    (f.pathOf name version).fault? = none ∧ (Text.utf8 name).length ≤ Files.maxName ∧
      (Text.utf8 version).length ≤ Files.maxName := by
  unfold refusal at admits
  dsimp only at admits
  split at admits
  · simp at admits
  split at admits
  · simp at admits
  next short =>
  exact ⟨by simpa using admits, by omega, by omega⟩

theorem length_fileName : fileName.bytes.length ≤ Files.maxName := by
  rw [show fileName.bytes = Text.utf8 "artifact.json" from rfl, Text.utf8_eq_encode]
  decide

theorem refusal_of_locate (shelf : f.Shelf root held fs) (require : requireSegments name version = .ok ())
    {last : Bool} {spot : Spot} (found : fs.locate last (f.pathOf name version) = .ok spot) :
    f.refusal name version = none ∧ spot.location = place root (name, version) := by
  have segments := segments_of_require require
  have some' : namesOf name version ≠ [] := List.cons_ne_nil _ _
  obtain ⟨left, located⟩ := shelf.leads.locate_below last some' segments
  rw [pathOf_eq, located] at found
  cases fault : (f.root.below (namesOf name version)).fault? with
  | some e => simp [fault] at found
  | none =>
    simp only [fault] at found
    have short := FileSystem.short_of_follow segments (fun _ _ ne => shelf.not_isLink ne) found
    simp only [namesOf, List.mem_cons, List.not_mem_nil, or_false, forall_eq_or_imp, forall_eq] at short
    have folder : ((f.pathOfName name).join (.ofText version)).fault? = none :=
      Path.fault?_of_child (segments fileName.bytes (by simp [namesOf])) fault
    have file : (f.pathOf name version).fault? = none := fault
    refine ⟨?_, FileSystem.location_of_follow segments (fun _ _ ne _ => shelf.not_isLink ne) found⟩
    simp only [refusal, folder, file]
    rw [if_neg (by omega)]
    rfl

theorem locate_file (shelf : f.Shelf root held fs) (require : requireSegments name version = .ok ())
    (first : fs.node? (root ++ [Text.utf8 name]) = some .directory)
    (second : fs.node? (root ++ [Text.utf8 name, Text.utf8 version]) = some .directory)
    (shortName : (Text.utf8 name).length ≤ Files.maxName) (shortVersion : (Text.utf8 version).length ≤ Files.maxName) :
    fs.locate true (f.pathOf name version) =
      match (f.pathOf name version).fault? with
      | some e => .error e
      | none =>
        match fs.node? (place root (name, version)) with
        | none => .ok (.free (place root (name, version)))
        | some n => .ok (.found (place root (name, version)) n) := by
  have segments := segments_of_require require
  have hn : Segment (Text.utf8 name) := segments _ (by simp [namesOf])
  have hv : Segment (Text.utf8 version) := segments _ (by simp [namesOf])
  have hk : Segment fileName.bytes := segments _ (by simp [namesOf])
  have notLink : ¬ Node.directory.IsLink := by simp [Node.IsLink]
  have leads := shelf.leads.child shelf.directory hn shortName first notLink
  have two : root ++ [Text.utf8 name] ++ [Text.utf8 version] = root ++ [Text.utf8 name, Text.utf8 version] := by simp
  have leads := leads.child first hv shortVersion (two ▸ second) notLink
  rw [two] at leads
  have three : root ++ [Text.utf8 name, Text.utf8 version] ++ [fileName.bytes] = place root (name, version) := by
    simp [place, namesOf]
  have located := leads.locate_child second hk length_fileName true (fun _ x node =>
    shelf.not_isLink (List.cons_ne_nil _ _) (three ▸ node))
  rw [three] at located
  exact located

theorem status_of_held (shelf : f.Shelf root held fs) (there : held (name, version) = some a) :
    fs.status (f.pathOf name version) = .ok (place root (name, version), .file a.toJson.toIndentedBytes) := by
  obtain ⟨require, fine⟩ := shelf.admitted _ a there
  obtain ⟨fault, shortName, shortVersion⟩ := fine_of_refusal fine
  obtain ⟨first, second⟩ := shelf.above _ a there
  have located := shelf.locate_file require first second shortName shortVersion
  rw [fault, shelf.file, there] at located
  rw [FileSystem.status, located]
  rfl

theorem present_eq (shelf : f.Shelf root held fs) (require : requireSegments name version = .ok ()) :
    fs.present (f.pathOf name version) = (held (name, version)).isSome := by
  cases there : held (name, version) with
  | some a => rw [FileSystem.present, shelf.status_of_held there]; rfl
  | none =>
    rw [FileSystem.present, FileSystem.status]
    cases found : fs.locate true (f.pathOf name version) with
    | error e => rfl
    | ok spot =>
      cases spot with
      | free l => rfl
      | found l n =>
        obtain rfl : l = place root (name, version) := (shelf.refusal_of_locate require found).2
        have node : fs.node? (place root (name, version)) = some n := FileSystem.holds_of_locate _ found
        simp [shelf.file, there] at node

theorem get_of_held (shelf : f.Shelf root held fs) (there : held (name, version) = some a) (storable : a.Storable)
    (shallow : a.toJson.depth ≤ Json.Document.maxDepth) :
    (get (f.pathOf name version)).run fs = (.ok a, fs) := by
  have read : fs.read (f.pathOf name version) = .ok a.toJson.toIndentedBytes := by
    rw [FileSystem.read, shelf.status_of_held there]
  simp only [get, Program.run_bind, Program.run_read, read, storable.ofBytes? shallow]
  rfl

end Shelf

/-! ## Writing -/

/-- Only the two directories of a name and a version may be new. -/
structure Shelved (root : Location) (name version : String) (fs fs' : FileSystem) : Prop
    extends FileSystem.Furnished fs fs' where
  others : ∀ l, l ≠ root ++ [Text.utf8 name] → l ≠ root ++ [Text.utf8 name, Text.utf8 version] →
    fs'.node? l = fs.node? l

theorem Shelved.refl (fs : FileSystem) : Shelved root name version fs fs where
  toFurnished := .refl fs
  others := fun _ _ _ => rfl

theorem Shelved.trans {fs'' : FileSystem} (h : Shelved root name version fs fs') (h' : Shelved root name version fs' fs'') :
    Shelved root name version fs fs'' where
  toFurnished := h.toFurnished.trans h'.toFurnished
  others := fun l first second => (h'.others l first second).trans (h.others l first second)

theorem shelved_furnish (fs : FileSystem) {l : Location}
    (one : l = root ++ [Text.utf8 name] ∨ l = root ++ [Text.utf8 name, Text.utf8 version]) :
    Shelved root name version fs (fs.furnish l) := by
  have ne : l ≠ [] := by obtain rfl | rfl := one <;> simp
  refine ⟨fs.furnished_furnish ne, fun k first second => ?_⟩
  rw [FileSystem.node?_furnish fs ne, if_neg]
  rintro ⟨rfl, -⟩
  exact one.elim first second

namespace Shelf

theorem shelved (shelf : f.Shelf root held fs) (h : Shelved root name version fs fs') : f.Shelf root held fs' where
  leads := shelf.leads.grown h.grown
  directory := h.grown.directory shelf.directory
  file := by
    intro pair
    rw [h.others _ (by simp [place, namesOf]) (by simp [place, namesOf]), shelf.file]
  admitted := shelf.admitted
  above := fun pair a there => (shelf.above pair a there).imp h.grown.directory h.grown.directory
  below := by
    intro names n ne node
    by_cases first : root ++ names = root ++ [Text.utf8 name]
    · obtain rfl := List.append_cancel_left first
      obtain same | ⟨-, made⟩ := h.node (root ++ [Text.utf8 name])
      · exact shelf.below _ n ne (same.symm.trans node)
      · exact .inl ⟨Option.some.inj (node.symm.trans made), by simp⟩
    by_cases second : root ++ names = root ++ [Text.utf8 name, Text.utf8 version]
    · obtain rfl := List.append_cancel_left second
      obtain same | ⟨-, made⟩ := h.node (root ++ [Text.utf8 name, Text.utf8 version])
      · exact shelf.below _ n ne (same.symm.trans node)
      · exact .inl ⟨Option.some.inj (node.symm.trans made), by simp⟩
    · exact shelf.below names n ne ((h.others _ first second).symm.trans node)

theorem write_eq (shelf : f.Shelf root held fs) (require : requireSegments name version = .ok ())
    (first : fs.node? (root ++ [Text.utf8 name]) = some .directory)
    (second : fs.node? (root ++ [Text.utf8 name, Text.utf8 version]) = some .directory)
    (shortName : (Text.utf8 name).length ≤ Files.maxName) (shortVersion : (Text.utf8 version).length ≤ Files.maxName)
    (bytes : List UInt8) :
    fs.write (f.pathOf name version) bytes =
      match (f.pathOf name version).fault? with
      | some e => .error e
      | none => .ok (fs.put (place root (name, version)) (.file bytes)) := by
  have spot : fs.writeSpot (f.pathOf name version) = fs.locate true (f.pathOf name version) :=
    FileSystem.writeSpot_child (segments_of_require require fileName.bytes (by simp [namesOf]))
  rw [FileSystem.write, spot, shelf.locate_file require first second shortName shortVersion, shelf.file]
  cases (f.pathOf name version).fault? with
  | some e => rfl
  | none => cases held (name, version) <;> rfl

theorem run_set (shelf : f.Shelf root held fs) (require : requireSegments name version = .ok ()) (a : StoredArtifact) :
    ∃ fs', Shelved root name version fs fs' ∧
      match f.refusal name version with
      | some e => (set (f.pathOf name version) a).run fs = (.error e, fs')
      | none =>
        (fs'.node? (root ++ [Text.utf8 name]) = some .directory ∧
            fs'.node? (root ++ [Text.utf8 name, Text.utf8 version]) = some .directory) ∧
          (set (f.pathOf name version) a).run fs =
            (.ok (), fs'.put (place root (name, version)) (.file a.toJson.toIndentedBytes)) := by
  have segments := segments_of_require require
  have hm : Segment (Text.utf8 name) := segments _ (by simp [namesOf])
  have hn : Segment (Text.utf8 version) := segments _ (by simp [namesOf])
  have parent : (f.pathOf name version).parent? = some ((f.root.child (Text.utf8 name)).child (Text.utf8 version)) :=
    Path.parent?_child_child _ hn (segments fileName.bytes (by simp [namesOf]))
  have first : fs.Furnishable (root ++ [Text.utf8 name]) := shelf.furnishable (by simp) (by simp)
  have second : fs.Furnishable (root ++ [Text.utf8 name, Text.utf8 version]) := shelf.furnishable (by simp) (by simp)
  have made := FileSystem.makeDirectories_child_child shelf.leads shelf.directory hm hn first second
  have folder : (f.pathOfName name).join (.ofText version) = (f.root.child (Text.utf8 name)).child (Text.utf8 version) := rfl
  simp only [set, Program.run_bind, Program.run_makeDirectories, parent, Option.getD_some, made, refusal, folder]
  cases ((f.root.child (Text.utf8 name)).child (Text.utf8 version)).fault? with
  | some e => exact ⟨fs, .refl fs, rfl⟩
  | none =>
    by_cases longName : Files.maxName < (Text.utf8 name).length
    · exact ⟨fs, .refl fs, by simp [longName, Program.run_pure]⟩
    have shelvedFirst : Shelved root name version fs (fs.furnish (root ++ [Text.utf8 name])) := shelved_furnish fs (.inl rfl)
    by_cases longVersion : Files.maxName < (Text.utf8 version).length
    · exact ⟨_, shelvedFirst, by simp [longName, longVersion, Program.run_pure]⟩
    simp only [longName, longVersion, or_self, if_false]
    have there := first.node?_furnish (by simp)
    generalize fs.furnish (root ++ [Text.utf8 name]) = fs₁ at shelvedFirst there ⊢
    have later : fs₁.Furnishable (root ++ [Text.utf8 name, Text.utf8 version]) :=
      (shelf.shelved shelvedFirst).furnishable (by simp) (by simp)
    have shelvedSecond : Shelved root name version fs₁ (fs₁.furnish (root ++ [Text.utf8 name, Text.utf8 version])) :=
      shelved_furnish fs₁ (.inr rfl)
    have there' := later.node?_furnish (by simp)
    generalize fs₁.furnish (root ++ [Text.utf8 name, Text.utf8 version]) = fs₂ at shelvedSecond there' ⊢
    have there := shelvedSecond.grown.directory there
    have shelved := shelvedFirst.trans shelvedSecond
    have written := (shelf.shelved shelved).write_eq require there there' (by omega) (by omega)
      a.toJson.toIndentedBytes
    refine ⟨fs₂, shelved, ?_⟩
    simp only [Program.run_bind, Program.run_write, Program.run_pure, Program.written, written]
    cases (f.pathOf name version).fault? with
    | some e => rfl
    | none => exact ⟨⟨there, there'⟩, rfl⟩

theorem put (shelf : f.Shelf root held fs) (admits : f.Admits (name, version))
    (first : fs.node? (root ++ [Text.utf8 name]) = some .directory)
    (second : fs.node? (root ++ [Text.utf8 name, Text.utf8 version]) = some .directory) (a : StoredArtifact) :
    f.Shelf root (fun pair => if pair = (name, version) then some a else held pair)
      (fs.put (place root (name, version)) (.file a.toJson.toIndentedBytes)) := by
  have ne : place root (name, version) ≠ [] := by simp [place, namesOf]
  have before : fs.node? (place root (name, version)) = none ∨
      ∃ old, fs.node? (place root (name, version)) = some (.file old) := by
    rw [shelf.file]
    cases held (name, version) with
    | none => exact .inl rfl
    | some b => exact .inr ⟨_, rfl⟩
  have grown : fs.Grown (fs.put _ (.file a.toJson.toIndentedBytes)) := FileSystem.grown_put ne before
  constructor
  case leads => exact shelf.leads.grown grown
  case directory => exact grown.directory shelf.directory
  case file =>
    intro pair
    rw [FileSystem.node?_put fs ne]
    by_cases same : pair = (name, version)
    · simp [same]
    · rw [if_neg (mt place_inj same), if_neg same, shelf.file]
  case admitted =>
    intro pair b there
    by_cases same : pair = (name, version)
    · exact same ▸ admits
    · exact shelf.admitted pair b (by simpa [same] using there)
  case above =>
    intro pair b there
    by_cases same : pair = (name, version)
    · subst same
      exact ⟨grown.directory first, grown.directory second⟩
    · exact (shelf.above pair b (by simpa [same] using there)).imp grown.directory grown.directory
  case below =>
    intro names n some' node
    rw [FileSystem.node?_put fs ne] at node
    by_cases here : root ++ names = place root (name, version)
    · rw [if_pos here] at node
      obtain rfl := List.append_cancel_left here
      exact .inr ⟨⟨_, (Option.some.inj node).symm⟩, rfl⟩
    · exact shelf.below names n some' (by rwa [if_neg here] at node)

end Shelf

/-! ## Calls -/

/-- Only the file of a name and a version and the two directories above it may have changed. -/
def Confined (root : Location) (name version : String) (fs fs' : FileSystem) : Prop :=
  ∀ l, l ≠ place root (name, version) → l ≠ root ++ [Text.utf8 name] →
    l ≠ root ++ [Text.utf8 name, Text.utf8 version] → fs'.node? l = fs.node? l

namespace Shelf

theorem set_admitted (shelf : f.Shelf root held fs) (admits : f.Admits (name, version)) (a : StoredArtifact) :
    ∃ fs', (set (f.pathOf name version) a).run fs = (.ok (), fs') ∧
      f.Shelf root (fun pair => if pair = (name, version) then some a else held pair) fs' ∧
      Confined root name version fs fs' := by
  obtain ⟨fs₁, shelved, done⟩ := shelf.run_set admits.1 a
  rw [admits.2] at done
  obtain ⟨⟨first, second⟩, run⟩ := done
  refine ⟨_, run, (shelf.shelved shelved).put admits first second a, fun l file one two => ?_⟩
  rw [FileSystem.node?_put fs₁ (by simp [place, namesOf]), if_neg file, shelved.others l one two]

end Shelf

section
variable (f root held) (c : Call) (fs)

/-- A call does what it would do to a map, and changes only its own file and the directories above it. -/
structure Refined (outcome : Except Error Reply × FileSystem) : Prop where
  answer : outcome.1 = c.answer (f.refusal c.name c.version) (held c.pair)
  shelf : f.Shelf root (f.next c held) outcome.2
  confined : Confined root c.name c.version fs outcome.2

variable {f root held c fs}

theorem next_of_idle (idle : f.Admits c.pair → c.update (held c.pair) = held c.pair) : f.next c held = held := by
  funext pair
  unfold next
  split
  · next here =>
    obtain ⟨rfl, admits⟩ := here
    exact idle admits
  · rfl

theorem next_of_admits (admits : f.Admits c.pair) {after : Option StoredArtifact} (h : c.update (held c.pair) = after) :
    f.next c held = fun pair => if pair = c.pair then after else held pair := by
  funext pair
  unfold next
  by_cases here : pair = c.pair
  · subst here
    simp [admits, h]
  · simp [here]

theorem Refined.idle (shelf : f.Shelf root held fs) (idle : f.Admits c.pair → c.update (held c.pair) = held c.pair) :
    Refined f root held fs c (c.answer (f.refusal c.name c.version) (held c.pair), fs) :=
  ⟨rfl, (next_of_idle idle).symm ▸ shelf, fun _ _ _ _ => rfl⟩

end

namespace Shelf

theorem ask_save (shelf : f.Shelf root held fs) (require : requireSegments name version = .ok ()) (payload : Json)
    (options : SaveOptions) (now : Timestamp) :
    Refined f root held fs ⟨name, version, .save payload options now⟩
      ((Registry.folder f).ask ⟨name, version, .save payload options now⟩ fs) := by
  simp only [Registry.ask, Registry.folder, run_save, require, shelf.present_eq require]
  cases there : held (name, version) with
  | some b =>
    have := Refined.idle (c := ⟨name, version, .save payload options now⟩) shelf fun _ => by
      simp [Call.update, Call.pair, there]
    simpa [Call.answer, Call.pair, there, Call.label, Except.map] using this
  | none =>
    simp only [Option.isSome_none, Bool.false_eq_true, if_false]
    cases refused : f.refusal name version with
    | some e =>
      obtain ⟨fs₁, shelved, done⟩ := shelf.run_set require ⟨.new name version options now, payload, []⟩
      rw [refused] at done
      have idle : f.next ⟨name, version, .save payload options now⟩ held = held :=
        next_of_idle fun admits => by simp [refused, Call.pair, Admits] at admits
      simp only at done
      rw [done]
      refine ⟨by simp [Call.answer, Call.pair, there, refused, Except.map], ?_, fun l _ => shelved.others l⟩
      rw [idle]
      exact shelf.shelved shelved
    | none =>
      have admits : f.Admits (name, version) := ⟨require, refused⟩
      obtain ⟨fs', done, shelf', confined⟩ :=
        shelf.set_admitted admits ⟨.new name version options now, payload, []⟩
      have next : f.next ⟨name, version, .save payload options now⟩ held = fun pair =>
          if pair = (name, version) then some ⟨.new name version options now, payload, []⟩ else held pair :=
        next_of_admits admits (by simp only [Call.update, Call.pair, there])
      rw [done]
      refine ⟨by simp [Call.answer, Call.pair, there, refused, Except.map], ?_, confined⟩
      rw [next]
      exact shelf'

theorem ask_log (shelf : f.Shelf root held fs) (require : requireSegments name version = .ok ())
    (readable : ∀ a, held (name, version) = some a → a.Storable ∧ a.toJson.depth ≤ Json.Document.maxDepth)
    (metadata : Json.Members) :
    Refined f root held fs ⟨name, version, .log metadata⟩
      ((Registry.folder f).ask ⟨name, version, .log metadata⟩ fs) := by
  simp only [Registry.ask, Registry.folder, run_log, require, shelf.present_eq require]
  cases there : held (name, version) with
  | none =>
    have := Refined.idle (c := ⟨name, version, .log metadata⟩) shelf fun _ => by simp [Call.update, Call.pair, there]
    simpa [Call.answer, Call.pair, there, Call.label, Except.map] using this
  | some a =>
    obtain ⟨storable, shallow⟩ := readable a there
    have admits := shelf.admitted (name, version) a there
    obtain ⟨fs', done, shelf', confined⟩ := shelf.set_admitted admits (a.addMetadata metadata)
    have next : f.next ⟨name, version, .log metadata⟩ held = fun pair =>
        if pair = (name, version) then some (a.addMetadata metadata) else held pair :=
      next_of_admits admits (by simp only [Call.update, Call.pair, there])
    simp only [Option.isSome_some, Bool.not_true, Bool.false_eq_true, if_false,
      shelf.get_of_held there storable shallow, done]
    refine ⟨by simp [Call.answer, Call.pair, there, Except.map], ?_, confined⟩
    rw [next]
    exact shelf'

theorem load_eq (shelf : f.Shelf root held fs) (require : requireSegments name version = .ok ())
    (readable : ∀ a, held (name, version) = some a → a.Storable ∧ a.toJson.depth ≤ Json.Document.maxDepth) :
    (Registry.folder f).load name version fs =
      match held (name, version) with
      | some a => .ok a
      | none => .error (.notFound (label name version)) := by
  simp only [Registry.folder, run_load, require, shelf.present_eq require]
  cases there : held (name, version) with
  | none => rfl
  | some a =>
    obtain ⟨storable, shallow⟩ := readable a there
    simp [shelf.get_of_held there storable shallow]

theorem save_log (shelf : f.Shelf root held fs) (admits : f.Admits (name, version)) (free : held (name, version) = none)
    {payload : Json} {options : SaveOptions} {now : Timestamp}
    (storable : (StoredArtifact.mk (.new name version options now) payload []).Storable)
    (shallow : (StoredArtifact.mk (.new name version options now) payload []).toJson.depth ≤ Json.Document.maxDepth)
    (metadata : Json.Members) :
    ∃ fs₁ fs₂, (f.save name version payload options now).run fs = (.ok (.new name version options now), fs₁) ∧
      (f.log name version metadata).run fs₁ = (.ok (), fs₂) := by
  obtain ⟨fs₁, saved, shelf₁, -⟩ := shelf.set_admitted admits ⟨.new name version options now, payload, []⟩
  obtain ⟨fs₂, logged, -, -⟩ := shelf₁.set_admitted admits
    ((StoredArtifact.mk (.new name version options now) payload []).addMetadata metadata)
  refine ⟨fs₁, fs₂, ?_, ?_⟩
  · simp [run_save, admits.1, shelf.present_eq admits.1, free, saved, Except.map]
  · simp [run_log, admits.1, shelf₁.present_eq admits.1, shelf₁.get_of_held (if_pos rfl) storable shallow, logged]

/-- **One call** on a folder that holds artifacts. -/
theorem ask (shelf : f.Shelf root held fs) (c : Call) (require : requireSegments c.name c.version = .ok ())
    (readable : ∀ a, held c.pair = some a → a.Storable ∧ a.toJson.depth ≤ Json.Document.maxDepth) :
    Refined f root held fs c ((Registry.folder f).ask c fs) := by
  obtain ⟨name, version, request⟩ := c
  cases request with
  | save payload options now => exact shelf.ask_save require payload options now
  | log metadata => exact shelf.ask_log require readable metadata
  | load =>
    have idle := Refined.idle (c := ⟨name, version, .load⟩) shelf fun _ => by simp [Call.update]
    simp only [Registry.ask, shelf.load_eq require readable]
    cases there : held (name, version) <;> simpa [Call.answer, Call.pair, there, Except.map, Call.label] using idle
  | metadata =>
    have idle := Refined.idle (c := ⟨name, version, .metadata⟩) shelf fun _ => by simp [Call.update]
    simp only [Registry.ask, Registry.metadata, shelf.load_eq require readable]
    cases there : held (name, version) <;> simpa [Call.answer, Call.pair, there, Except.map, Call.label] using idle

end Shelf

end Folder

end Artifact

end ModelDepot
