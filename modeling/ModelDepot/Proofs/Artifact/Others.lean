import ModelDepot.Proofs.Artifact.Versions

/-! # Files beside a new one

The folder of a registry stands in a directory that is there. Where no links are on the way to its files, a new
file is passed by no path to another one, so that the other versions are listed and loaded as they were.
-/

namespace ModelDepot

open Files (FileSystem Location Name Node Path Segment)

namespace Files

theorem Path.below_append (p : Path) (names more : List Name) : p.below (names ++ more) = (p.below names).below more :=
  List.foldl_append

theorem FileSystem.Sound.directory_above {fs : FileSystem} (sound : fs.Sound) {l : Location} {ns names : List Name}
    (directory : fs.node? (l ++ names) = some .directory) (before : ns <+: names) :
    fs.node? (l ++ ns) = some .directory := by
  obtain ⟨rest, rfl⟩ := before
  by_cases last : rest = []
  · simpa [last] using directory
  · exact sound.above last (by simpa using directory)

end Files

theorem prefix_of_differ {α : Type} {front l : List α} {x y : α} (xs ys : List α) (differ : x ≠ y)
    (h : l <+: front ++ x :: xs) (h' : l <+: front ++ y :: ys) : l <+: front := by
  obtain before | ⟨rest, rfl⟩ := List.prefix_or_prefix_of_prefix h (List.prefix_append front (x :: xs))
  · exact before
  · rw [List.prefix_append_right_inj] at h h'
    cases rest with
    | nil => simp
    | cons z zs =>
      obtain rfl := (List.cons_prefix_cons.mp h).1
      exact absurd (List.cons_prefix_cons.mp h').1 differ

namespace Artifact

theorem requireSegment_of_segments {name version : String} (h : requireSegments name version = .ok ()) :
    requireSegment "name" name = .ok () := by
  unfold requireSegments at h
  cases first : requireSegment "name" name with
  | error e => simp [first, bind, Except.bind] at h
  | ok => rfl

namespace Folder

variable {f : Folder} {base : Path} {b : Location} {names : List Name} {name version : String} {fs fs' : FileSystem}
  {a : StoredArtifact} {n : Name} {p : Path}

/-- The folder is some names below a directory that is there, or that directory itself, and neither on the way down nor
in the folder there are links. The folder itself may still be missing. -/
structure Standing (f : Folder) (base : Path) (b : Location) (names : List Name) (fs : FileSystem) : Prop where
  sound : fs.Sound
  root : f.root = base.below names
  segments : ∀ n ∈ names, Segment n
  leads : fs.Leads base b
  directory : fs.node? b = some .directory
  noLinks : ∀ below n, below ≠ [] → below <+: names ∨ names <+: below → fs.node? (b ++ below) = some n → ¬ n.IsLink

namespace Standing

theorem extended (standing : f.Standing base b names fs) (h : fs.Extended fs') (sound : fs'.Sound) :
    f.Standing base b names fs' where
  sound := sound
  root := standing.root
  segments := standing.segments
  leads := standing.leads.grown h.toGrown
  directory := h.toGrown.directory standing.directory
  noLinks := fun below n ne on => h.notLink (fun m => standing.noLinks below m ne on) n

theorem noLinks_below (standing : f.Standing base b names fs) {more : List Name} :
    ∀ ns n, ns ≠ [] → ns <+: names ++ more → fs.node? (b ++ ns) = some n → ¬ n.IsLink := fun ns n ne before =>
  standing.noLinks ns n ne (List.prefix_or_prefix_of_prefix before (List.prefix_append names more))

theorem segments_below (standing : f.Standing base b names fs) {more : List Name} (segments : ∀ n ∈ more, Segment n) :
    ∀ n ∈ names ++ more, Segment n := fun n hn =>
  (List.mem_append.mp hn).elim (standing.segments n) (segments n)

theorem below (standing : f.Standing base b names fs) (more : List Name) :
    f.root.below more = base.below (names ++ more) := by
  rw [Path.below_append, standing.root]

theorem status_eq (standing : f.Standing base b names fs) (grown : fs.Grown fs') {more : List Name} (some' : more ≠ [])
    (segments : ∀ n ∈ more, Segment n)
    (same : ∀ ns, ns <+: names ++ more → fs'.node? (b ++ ns) = fs.node? (b ++ ns)) :
    fs'.status (f.root.below more) = fs.status (f.root.below more) := by
  rw [standing.below]
  exact FileSystem.status_below_eq grown standing.leads (by simp [some']) (standing.segments_below segments) same
    standing.noLinks_below

theorem home (standing : f.Standing base b names fs) (require : requireSegments name version = .ok ())
    (there : fs.present (f.pathOf name version) = true) :
    fs.status (f.pathOfName name) = .ok (b ++ (names ++ [Text.utf8 name]), .directory) ∧
      Text.utf8 version ∈ fs.list (b ++ (names ++ [Text.utf8 name])) := by
  have segments := segments_of_require require
  have hn : Segment (Text.utf8 name) := segments _ (by simp [namesOf])
  have hv : Segment (Text.utf8 version) := segments _ (by simp [namesOf])
  have hf : Segment fileName.bytes := segments _ (by simp [namesOf])
  obtain ⟨l, n, status⟩ : ∃ l n, fs.status (f.pathOf name version) = .ok (l, n) := by
    unfold FileSystem.present at there
    split at there
    · next x status => exact ⟨x.1, x.2, status⟩
    · simp at there
  have located := FileSystem.locate_of_status status
  obtain ⟨reaches, node⟩ := FileSystem.reaches_of_status status
  have file : l = b ++ (names ++ namesOf name version) := by
    refine standing.leads.eq_below standing.directory (by simp [namesOf]) (standing.segments_below segments)
      standing.noLinks_below ?_
    rw [← standing.below]
    exact reaches.leads
  rw [show f.pathOf name version = (f.pathOfName name).below [Text.utf8 version, fileName.bytes] from rfl] at located
  obtain ⟨-, k, leads, directory, -⟩ := FileSystem.leads_of_locate (List.cons_ne_nil _ _) (by simpa using ⟨hv, hf⟩) located
  have here : k = b ++ (names ++ [Text.utf8 name]) := by
    refine standing.leads.eq_below standing.directory (by simp) (standing.segments_below (by simpa using hn))
      standing.noLinks_below ?_
    rw [← standing.below]
    exact leads
  have fine : (f.pathOfName name).fault? = none :=
    Path.fault?_of_child hv (Path.fault?_of_child hf (FileSystem.follow_of_locate located).2.1)
  have leadsHere : fs.Reaches (f.pathOfName name) k := ⟨fine, f.root.bytes_child_ne_nil hn, leads⟩
  refine ⟨by rw [leadsHere.status directory, here], ?_⟩
  have parent : fs.node? (b ++ (names ++ [Text.utf8 name]) ++ [Text.utf8 version]) = some .directory := by
    rw [file] at node
    exact standing.sound.above (List.cons_ne_nil fileName.bytes []) (n := n) (by simpa [namesOf] using node)
  exact FileSystem.mem_list_of_node? parent

variable (standing : f.Standing base b names fs) (require : requireSegments name version = .ok ())
  (passing : FileSystem.Passing (f.pathOf name version) fs fs')

include standing require passing

theorem node?_eq {k : Location} (off : ∀ ns, ns <+: names ++ namesOf name version → k ≠ b ++ ns) :
    fs'.node? k = fs.node? k := by
  rw [pathOf_eq, standing.below] at passing
  exact passing.node?_eq standing.leads standing.directory (by simp [namesOf])
    (standing.segments_below (segments_of_require require)) standing.noLinks_below off

theorem status_entry (segment : Segment n) (other : n ≠ Text.utf8 version)
    (directory : fs.node? (b ++ (names ++ [Text.utf8 name])) = some .directory) :
    fs'.status (f.entry name n) = fs.status (f.entry name n) := by
  have segments := segments_of_require require
  have grown := passing.toGrown
  rw [entry_eq]
  refine standing.status_eq grown (List.cons_ne_nil _ _) ?_ fun ns before => ?_
  · simpa using ⟨segments _ (by simp [namesOf]), segment, segments _ (by simp [namesOf])⟩
  -- The paths of the two files part in the folder of the name.
  by_cases shared : ns <+: names ++ namesOf name version
  · have above : ns <+: names ++ [Text.utf8 name] :=
      prefix_of_differ [fileName.bytes] [fileName.bytes] other (by simpa using before) (by simpa [namesOf] using shared)
    have there := standing.sound.directory_above directory above
    exact (grown.directory there).trans there.symm
  · refine standing.node?_eq require passing fun ms on same => shared ?_
    exact List.append_cancel_left same ▸ on

theorem status_pathOfName (directory : fs.node? (b ++ (names ++ [Text.utf8 name])) = some .directory) :
    fs'.status (f.pathOfName name) = fs.status (f.pathOfName name) := by
  have segments := segments_of_require require
  have path : f.pathOfName name = f.root.below [Text.utf8 name] := rfl
  rw [path]
  refine standing.status_eq passing.toGrown (List.cons_ne_nil _ _) ?_ fun ns before => ?_
  · simpa using segments _ (by simp [namesOf])
  · have there := standing.sound.directory_above directory before
    exact (passing.toGrown.directory there).trans there.symm

/-- **Other versions are listed as they were** when the file of a new one is added and can be read. -/
theorem versions (sound : fs'.Sound) (there : fs'.present (f.pathOf name version) = true) {Q Q' : Version → Prop}
    (still : ∀ v, Q v → Q' v) (new : ∃ a, ((get (f.pathOf name version)).run fs').1 = .ok a ∧ Q' a.version)
    (before : ∃ vs, (Registry.folder f).versions name fs = .ok vs ∧ ∀ v ∈ vs, Q v) :
    ∃ vs, (Registry.folder f).versions name fs' = .ok vs ∧ ∀ v ∈ vs, Q' v := by
  have requireName := requireSegment_of_segments require
  have segments := segments_of_require require
  obtain ⟨home, -⟩ := (standing.extended passing.toExtended sound).home require there
  rw [versions_iff requireName] at before ⊢
  refine .inr ⟨fs'.list (b ++ (names ++ [Text.utf8 name])), by simp only [FileSystem.names, home], fun n hn found => ?_⟩
  by_cases other : n = Text.utf8 version
  · subst other
    exact new
  obtain ⟨x, node⟩ := FileSystem.node?_of_mem_list hn
  -- In the folder of the name only the folder of the new version can be new.
  have node : fs.node? (b ++ (names ++ [Text.utf8 name]) ++ [n]) = some x := by
    rw [← node]
    refine (standing.node?_eq require passing fun ns on same => ?_).symm
    rw [List.append_assoc, List.append_cancel_left_eq, List.append_assoc] at same
    rw [← same, List.prefix_append_right_inj] at on
    have one : [Text.utf8 name, n] <+: [Text.utf8 name, Text.utf8 version, fileName.bytes] := on
    simp [other] at one
  have directory := standing.sound.parents _ _ _ node
  have status := standing.status_entry require passing (sound.segments_of_list n hn) other directory
  have read : fs'.read (f.entry name n) = fs.read (f.entry name n) := by simp only [FileSystem.read, status]
  have listed : fs.names (f.pathOfName name) = .ok (fs.list (b ++ (names ++ [Text.utf8 name]))) := by
    rw [standing.status_pathOfName require passing directory] at home
    simp only [FileSystem.names, home]
  rw [FileSystem.present, status] at found
  obtain missing | ⟨ns, ok, all⟩ := before
  · simp [listed] at missing
  obtain rfl := Except.ok.inj (listed.symm.trans ok)
  obtain ⟨a, got, holds⟩ := all n (FileSystem.mem_list_of_node? node) found
  refine ⟨a, ?_, still _ holds⟩
  rw [← got]
  simp only [get, Files.Program.run_bind, Files.Program.run_read, read]
  split
  · rfl
  · split <;> rfl

omit passing in
theorem versions_ne_ok (there : fs.present (f.pathOf name version) = true) {e : Error}
    (failed : ((get (f.pathOf name version)).run fs).1 = .error e) (vs : List Version) :
    (Registry.folder f).versions name fs ≠ .ok vs := by
  intro listed
  obtain ⟨home, mem⟩ := standing.home require there
  have names : fs.names (f.pathOfName name) = .ok (fs.list (b ++ (names ++ [Text.utf8 name]))) := by
    simp only [FileSystem.names, home]
  have before := (versions_iff (f := f) (requireSegment_of_segments require) fs fun _ => True).mp ⟨vs, listed, by simp⟩
  obtain missing | ⟨ns, ok, all⟩ := before
  · simp [names] at missing
  obtain rfl := Except.ok.inj (names.symm.trans ok)
  obtain ⟨a, got, -⟩ := all _ mem there
  rw [entry_version, failed] at got
  simp at got

/-- **Other versions are loaded as they were** when a new one is added. -/
theorem load (free : fs.present (f.pathOf name version) = false) {version' : String}
    (loaded : (Registry.folder f).load name version' fs = .ok a) : (Registry.folder f).load name version' fs' = .ok a := by
  obtain ⟨require', there, got⟩ := load_ok loaded
  have other : Text.utf8 version' ≠ Text.utf8 version := by
    intro same
    rw [Text.utf8_inj same, free] at there
    simp at there
  obtain ⟨home, -⟩ := standing.home require' there
  have directory := FileSystem.holds_of_locate _ (FileSystem.locate_of_status home)
  have segment : Segment (Text.utf8 version') := segments_of_require require' _ (by simp [namesOf])
  have status := standing.status_entry require passing segment other directory
  rw [entry_version] at status
  obtain ⟨bytes, read, decoded⟩ := get_ok got
  have read' : fs'.read (f.pathOf name version') = .ok bytes := by
    rw [← read]
    simp only [FileSystem.read, status]
  rw [load_of_read require' read', decoded]

end Standing

end Folder

end Artifact

end ModelDepot
