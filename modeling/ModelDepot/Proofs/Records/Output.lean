import Mathlib
import ModelDepot.Proofs.Files.Retracing
import ModelDepot.Proofs.Records.Origins

/-! # Where the records are

The output is found in the text of its path: steps upward take names back, and what is there of the location that is
spelled so is followed. After a copy, the path of that location leads to the records. The path that was given leads
there too if each step upward in it goes back from a directory, but a step back from a link can lead elsewhere.
-/

namespace ModelDepot

open Files (FileSystem Location Name Node Path Segment maxLinks maxName)
open Files.FileSystem (Extended Way)

namespace Records

variable {fs fs' : FileSystem} {target there l : Location} {missing ms : List Name} {m : Name} {n : Node} {p : Path}

/-! ## Nothing is there in place of what is missing -/

section

variable (sound : fs.Sound) (found : fs.status there.path = .ok (l, n))
include sound found

theorem noLinks_of_status : ∀ k x, k <+: l → fs.node? k = some x → ¬ x.IsLink := by
  rintro k x ⟨more, rfl⟩ node
  have located := FileSystem.locate_of_status found
  have node' : fs.node? (k ++ more) = some n := FileSystem.holds_of_locate true located
  by_cases last : more = []
  · subst last
    rw [List.append_nil, node, Option.some.injEq] at node'
    exact node' ▸ FileSystem.not_isLink_of_locate sound located
  · rw [sound.above last node', Option.some.injEq] at node
    simp [← node, Node.IsLink]

/-- Names that are missing after a path are free where it leads: something that leads nowhere would have kept the
directories from being made. -/
theorem free_of_missing (proper : Location.Proper (there ++ m :: ms)) (fine : (Location.path (there ++ m :: ms)).fault? = none)
    (few : fs.status (Location.path (there ++ m :: ms)) ≠ .error .tooManyLinks)
    (absent : fs.present (Location.path (there ++ [m])) = false) (proper' : Location.Proper (l ++ m :: ms))
    (made : fs.makeDirectories (Location.path (l ++ m :: ms)) = (.ok (), fs')) : fs.node? (l ++ [m]) = none := by
  by_contra something
  obtain ⟨x, node⟩ := Option.ne_none_iff_exists'.mp something
  have directory := sound.parents l m x node
  obtain ⟨fine', short⟩ := FileSystem.fits_of_makeDirectories proper' made
  have front : l ++ [m] <+: l ++ m :: ms := ⟨ms, by simp⟩
  have front' : there ++ [m] <+: there ++ m :: ms := ⟨ms, by simp⟩
  -- The name is looked up in one directory, reached without links by the one path and perhaps with links by the other.
  have straight : Way fs maxLinks [] l maxLinks l :=
    sound.way directory (by simp [Node.IsLink]) fun k hk => short k (by simp [hk])
  have follows := straight.locate_concat (fun k hk => proper' k (front.subset hk))
    (Location.fault?_of_front proper' front fine')
  obtain ⟨left, way⟩ := FileSystem.way_of_follow (FileSystem.follow_path_of_locate
    (fun k hk => proper k (List.mem_append_left _ hk)) (FileSystem.locate_of_status found))
  have follows' := way.locate_concat (fun k hk => proper k (front'.subset hk)) (Location.fault?_of_front proper front' fine)
    true
  have few' : fs.follow true left l [m] ≠ .error .tooManyLinks := by
    intro tooMany
    have whole := FileSystem.locate_tooManyLinks proper fine front' (follows'.trans tooMany)
    exact few (by rw [FileSystem.status, whole])
  have same : fs.follow true maxLinks l [m] = fs.follow true left l [m] := by
    have more := FileSystem.follow_add (maxLinks - left) few'
    rwa [Nat.add_sub_cancel' way.left_le] at more
  have nowhere : fs.isDirectory (Location.path (l ++ [m])) = false := by
    by_contra leads
    obtain ⟨k, leads⟩ := FileSystem.isDirectory_iff.mp (by simpa using leads)
    have located := FileSystem.locate_of_status leads
    rw [follows true, same, ← follows'] at located
    simp [FileSystem.present, FileSystem.status, located] at absent
  have located : fs.locate false (Location.path (l ++ [m])) = .ok (.found (l ++ [m]) x) := by
    rw [follows false]
    by_cases link : x.IsLink
    · obtain ⟨to', rfl⟩ := link
      rw [FileSystem.follow_proper false directory (short m (by simp)), node]
      rfl
    · rw [FileSystem.follow_down false directory (short m (by simp)) node link, FileSystem.follow_nil false node]
  obtain ⟨e, failed⟩ := FileSystem.makeLineage_fails proper' front located nowhere _
  rw [FileSystem.makeDirectories, Path.lineage, failed] at made
  simp at made

end

/-! ## The way to the output -/

/-- No limit of the system is in the way of a path: neither it nor the path of the location that it spells is too long,
the latter leads through no more links than may be followed, and the working directory is there. -/
structure Fits (fs : FileSystem) (p : Path) : Prop where
  some' : p.bytes ≠ []
  fine : p.fault? = none
  fineSpelled : (fs.spelled p).path.fault? = none
  few : fs.status (fs.spelled p).path ≠ .error .tooManyLinks
  working : p.isAbsolute = false →
    fs.node? fs.workingDirectory = some .directory ∧ ∀ name ∈ fs.workingDirectory, name.length ≤ maxName

theorem Fits.straight (fits : Fits fs p) (sound : fs.Sound) : Way fs maxLinks [] (fs.start p) maxLinks (fs.start p) := by
  unfold FileSystem.start
  split
  · exact .stay _ _
  · next relative =>
    obtain ⟨directory, short⟩ := fits.working (by simpa using relative)
    exact sound.way directory (by simp [Node.IsLink]) fun name hname => (sound.working name hname).proper (short name hname)

/-- **The directory that is made is where the spelled location leads.** What is there of it is followed in the same way
afterwards, and what was missing is made straight below. -/
theorem way_of_made (sound : fs.Sound) (fits : Fits fs p) (output' : outputLocation fs p = .ok target)
    (made : fs.makeDirectories target.path = (.ok (), fs')) :
    fs'.node? target = some .directory ∧ ∃ left, Way fs' maxLinks [] (fs.spelled p) left target := by
  have proper' := proper_outputLocation sound output'
  have proper : (fs.spelled p).Proper := sound.proper_resolve (List.Subset.refl _)
  have furnished := FileSystem.furnished_makeDirectories fs target.path
  have sound' := sound.makeDirectories target.path
  rw [made] at furnished sound'
  obtain ⟨there, missing, l, whole, canonical, rfl, absent⟩ := outputLocation_eq output'
  obtain ⟨n, found⟩ := FileSystem.status_of_canonical canonical
  have fine := fits.fineSpelled
  have few := fits.few
  rw [whole] at proper fine few ⊢
  have noLinks := noLinks_of_status sound found
  obtain ⟨left, way⟩ := FileSystem.way_of_follow (FileSystem.follow_path_of_locate
    (fun k hk => proper k (List.mem_append_left _ hk)) (FileSystem.locate_of_status found))
  have way := way.grown furnished.grown
  cases missing with
  | nil =>
    simp only [List.append_nil] at made ⊢
    exact ⟨FileSystem.directory_of_makeDirectories (by simpa using proper') noLinks made, left, way⟩
  | cons m ms =>
    have free := free_of_missing sound found proper fine few (absent m ms rfl) proper' made
    have directory : fs'.node? (l ++ m :: ms) = some .directory := by
      refine FileSystem.directory_of_makeDirectories proper' (fun k x before node => ?_) made
      obtain up | ⟨r, rfl⟩ := List.prefix_or_prefix_of_prefix before (List.prefix_append l (m :: ms))
      · exact noLinks k x up node
      · cases r with
        | nil => exact noLinks _ x (by simp) node
        | cons m' r =>
          obtain rfl : m' = m := (List.cons_prefix_cons.mp ((List.prefix_append_right_inj l).mp before)).1
          rw [List.append_cons] at node
          by_cases last : r = []
          · simp [last, free] at node
          · simp [sound.above last node] at free
    have short := (FileSystem.fits_of_makeDirectories proper' made).2
    exact ⟨directory, left, way.append (sound'.way directory (by simp [Node.IsLink]) fun k hk =>
      short k (List.mem_append_right _ hk))⟩

/-- **A copy is found through its path.** If copying succeeds, the path of the location that the output spells leads to
the records afterwards, and the path of the output itself does so if each step upward in it goes back from a directory. -/
theorem Directory.copyRecords_reaches (d : Directory) (output : Path) (sound : fs.Sound) (fits : Fits fs output) {n : Nat}
    (copied : d.copyRecords output fs = (.ok n, fs')) :
    ∃ target, outputLocation fs output = .ok target ∧ fs'.status (fs.spelled output).path = .ok (target, .directory) ∧
      (fs'.Retraced output → fs'.canonical output = .ok target) := by
  unfold copyRecords at copied
  split at copied
  · simp at copied
  next source found =>
  split at copied
  · simp at copied
  next target output' =>
  split at copied
  · simp at copied
  next outside =>
  split at copied
  · simp at copied
  next fs₁ made =>
  have ne : source ≠ [] := by
    rintro rfl
    simp at outside
  have furnished := FileSystem.furnished_makeDirectories fs target.path
  have sound₁ := sound.makeDirectories target.path
  rw [made] at furnished sound₁
  obtain ⟨there, left, way⟩ := way_of_made sound fits output' made
  have stands := Stands.begin sound₁ ne (sound.names _ _ (node?_of_location found)) (proper_outputLocation sound output')
  obtain ⟨extended, sound'⟩ := extended_copyEntries 0 stands
  rw [show copyEntries _ _ _ _ _ _ _ _ = _ from copied] at extended sound'
  have grown := furnished.grown.trans extended.toGrown
  have start : fs'.start output = fs.start output := by
    unfold FileSystem.start
    rw [grown.workingDirectory]
  have way := way.grown extended.toGrown
  have there := extended.toGrown.directory there
  have proper : (fs.spelled output).Proper := sound.proper_resolve (List.Subset.refl _)
  refine ⟨target, output', ?_, fun retraced => ?_⟩
  · exact FileSystem.Reaches.status ⟨fits.fineSpelled, by simp [Location.path], way.leads_path proper⟩ there
  · have same : fs'.spelled output = fs.spelled output := by
      unfold FileSystem.spelled
      rw [start]
    have reaches := retraced.reaches sound' (start ▸ (fits.straight sound).grown grown) fits.some' fits.fine (same ▸ way) there
    rw [FileSystem.canonical, reaches.status there]
    rfl

/-- The directory `s` with the file `a`, the directory `e` with the directories `d` and `o`, and the links `l` and `m`,
which lead to `e` and to `e/d`. -/
def branching : FileSystem where
  entries := [
    ([[0x73]], .directory),
    ([[0x73], [0x61]], .file [1]),
    ([[0x65]], .directory),
    ([[0x65], [0x64]], .directory),
    ([[0x65], [0x6f]], .directory),
    ([[0x6c]], .link ⟨[0x65]⟩),
    ([[0x6d]], .link ⟨[0x65, 0x2f, 0x64]⟩)]
  workingDirectory := []

theorem branching_sound : branching.Sound := FileSystem.sound_of_entries (by decide) (by decide) (by decide)

theorem branching_fits : Fits branching ⟨[0x6c, 0x2f, 0x64, 0x2f, 0x2e, 0x2e, 0x2f, 0x78]⟩ where
  some' := by decide
  fine := by decide
  fineSpelled := by decide
  few := by
    rw [show branching.status _ = .error .noEntry by cbv]
    decide
  working := fun _ => ⟨rfl, by decide⟩

/-- The output `l/d/../x` goes back from a directory, and records that are copied there are in `e/x`. -/
theorem copyRecords_reaches_branching :
    let d : Directory := ⟨⟨"records", ⟨[0x2f, 0x73]⟩, none⟩, by decide⟩
    let output : Path := ⟨[0x6c, 0x2f, 0x64, 0x2f, 0x2e, 0x2e, 0x2f, 0x78]⟩
    let o := d.copyRecords output branching
    o.1 = .ok 1 ∧ outputLocation branching output = .ok [[0x65], [0x78]] ∧ o.2.canonical output = .ok [[0x65], [0x78]] := by
  intro d output o
  have copied : o.1 = .ok 1 := by
    dsimp only [o, d, output]
    cbv
  have location : outputLocation branching output = .ok [[0x65], [0x78]] := by cbv
  have names : output.names = [[0x6c], [0x64], Files.dotDot, [0x78]] := by cbv
  have retraced : o.2.Retraced output := by
    intro before sub
    have mem := (List.mem_inits _ _).mpr ((List.prefix_append before [Files.dotDot]).trans sub)
    rw [names] at mem sub
    simp only [List.inits, List.map_cons, List.map_nil, List.mem_cons, List.not_mem_nil, or_false] at mem
    rcases mem with rfl | rfl | rfl | rfl | rfl
    · exact absurd sub (by decide)
    · exact absurd sub (by decide)
    · refine .inr ⟨[[0x65], [0x64]], ?_⟩
      dsimp only [o, d, output]
      cbv
    · exact absurd sub (by decide)
    · exact absurd sub (by decide)
  obtain ⟨target, location', -, reached⟩ := d.copyRecords_reaches output branching_sound branching_fits (Prod.ext copied rfl)
  obtain rfl := Except.ok.inj (location.symm.trans location')
  exact ⟨copied, location, reached retraced⟩

/-- **A step upward from a link goes astray**: records that are copied to `m/../o` are in `o`, and the path leads to the
directory `e/o`, which stays empty. -/
theorem copyRecords_strays :
    let d : Directory := ⟨⟨"records", ⟨[0x2f, 0x73]⟩, none⟩, by decide⟩
    let output : Path := ⟨[0x6d, 0x2f, 0x2e, 0x2e, 0x2f, 0x6f]⟩
    let o := d.copyRecords output branching
    o.1 = .ok 1 ∧ outputLocation branching output = .ok [[0x6f]] ∧ o.2.node? [[0x6f], [0x61]] = some (.file [1]) ∧
      o.2.canonical output = .ok [[0x65], [0x6f]] ∧ o.2.list [[0x65], [0x6f]] = [] := by
  refine ⟨?_, ?_, ?_, ?_, ?_⟩ <;> cbv

end Records

end ModelDepot
