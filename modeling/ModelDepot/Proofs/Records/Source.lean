import Mathlib
import ModelDepot.Proofs.Files.Sparing
import ModelDepot.Records.Copy

/-! # Copying records leaves the source alone

Whatever is copied is written below the output. If nothing there, and no directory above it, leads into the
source, then everything below the source stays as it was, however copying ends.
-/

namespace ModelDepot

open Files (FileSystem Location Name Node Path Segment maxPath)
open Files.FileSystem (Clear Extended Spared)

namespace Records

variable {fs : FileSystem} {source target place : Location}

/-- As long as no links are added, neither the path of the output nor those above and below it lead to the
source or a place below it. -/
def Apart (fs : FileSystem) (source target : Location) : Prop :=
  ∀ l : Location, l.Proper → l <+: target ∨ target <+: l → fs.Clear source l

theorem Apart.extended {fs' : FileSystem} (apart : Apart fs source target) (h : Extended fs fs') :
    Apart fs' source target :=
  fun l proper line => (apart l proper line).extended h

theorem apart_of_noLinks (outside : ¬ source <+: target) (notAbove : ¬ target <+: source)
    (noLinks : ∀ l n, l <+: target ∨ target <+: l → fs.node? l = some n → ¬ n.IsLink) : Apart fs source target := by
  intro l proper line
  refine FileSystem.clear_of_noLinks proper (fun k n before => noLinks k n ?_) ?_
  · obtain up | down := line
    · exact .inl (before.trans up)
    · exact List.prefix_or_prefix_of_prefix before down
  · intro below
    obtain up | down := line
    · exact outside (below.trans up)
    · exact (List.prefix_or_prefix_of_prefix below down).elim outside notAbove

/-! ## The walk -/

theorem spared_makeBelow (sound : fs.Sound) (proper : place.Proper) (inside : target <+: place)
    (apart : Apart fs source target) : Spared source fs (fs.makeDirectories place.path).2 := by
  refine FileSystem.spared_makeDirectories sound proper fun k before => ?_
  obtain ⟨more, rfl⟩ := before
  exact apart k (fun n hn => proper n (by simp [hn])) (List.prefix_or_prefix_of_prefix ⟨more, rfl⟩ inside)

theorem copyRecord_keeps {I : FileSystem → Prop} (origin into : Path)
    (made : I (fs.makeDirectories (into.parent?.getD into)).2)
    (copies : ∀ fs fs', I fs → fs.copy origin into = .ok fs' → I fs') : I (copyRecord origin into fs).2 := by
  unfold copyRecord
  dsimp only
  split
  · next failed => rwa [failed] at made
  · next done =>
    rw [done] at made
    split
    · next copied => exact copies _ _ made copied
    · exact made

theorem spared_copyRecordAt (sound : fs.Sound) (proper : place.Proper) (inside : target <+: place)
    (apart : Apart fs source target) {name : Name} (segment : Segment name) (origin : Path) :
    Spared source fs (copyRecord origin (place ++ [name]).path fs).2 := by
  have into := proper.concat segment
  refine copyRecord_keeps _ _ ?_ fun fs₁ fs₂ spared copied => ?_
  · rw [Location.parent_path into, List.dropLast_concat]
    exact spared_makeBelow sound proper inside apart
  · have clear := apart.extended spared.extended _ into (.inr (inside.trans (List.prefix_append place [name])))
    exact spared.trans (FileSystem.spared_copy spared.sound into clear copied)

/-- The path of a place below the output. -/
def Down (target : Location) (into : Path) : Prop :=
  ∃ place : Location, into = place.path ∧ place.Proper ∧ target <+: place

theorem Down.child {into : Path} (down : Down target into) {name : Name} (segment : Segment name) :
    Down target (into.child name) := by
  obtain ⟨place, rfl, proper, inside⟩ := down
  exact ⟨place ++ [name], Location.child_path proper segment, proper.concat segment,
    inside.trans (List.prefix_append place [name])⟩

theorem Down.spared_makeDirectories {into : Path} (down : Down target into) (sound : fs.Sound)
    (apart : Apart fs source target) : Spared source fs (fs.makeDirectories into).2 := by
  obtain ⟨place, rfl, proper, inside⟩ := down
  exact spared_makeBelow sound proper inside apart

theorem Down.spared_copyRecord {into : Path} (down : Down target into) (sound : fs.Sound)
    (apart : Apart fs source target) {name : Name} (segment : Segment name) (origin : Path) :
    Spared source fs (copyRecord origin (into.child name) fs).2 := by
  obtain ⟨place, rfl, proper, inside⟩ := down
  rw [Location.child_path proper segment]
  exact spared_copyRecordAt sound proper inside apart segment origin

theorem spared_copyEntries (room : Nat) (above : List Location) (here : Location) (origin into : Path)
    (names : List Name) (copied : Nat) (sound : fs.Sound) (segments : ∀ n ∈ names, Segment n)
    (down : Down target into) (apart : Apart fs source target) :
    Spared source fs (copyEntries room above here origin into names copied fs).2 := by
  fun_induction copyEntries room above here origin into names copied fs with
  | case1 => exact .refl source sound
  | case2 => exact .refl source sound
  | case3 _ _ _ _ _ _ _ _ _ _ _ ih => exact ih sound (fun m hm => segments m (by simp [hm])) down apart
  | case4 _ _ _ _ _ _ _ n _ origin _ _ e fs' failed =>
    have step := down.spared_copyRecord sound apart (segments n (by simp)) origin
    rwa [failed] at step
  | case5 _ _ _ _ _ _ _ n _ origin _ _ fs' done ih =>
    have step := down.spared_copyRecord sound apart (segments n (by simp)) origin
    rw [done] at step
    exact step.trans (ih step.sound (fun m hm => segments m (by simp [hm])) down (apart.extended step.extended))
  | case6 _ _ _ _ _ _ _ n _ _ _ _ _ e fs' failed =>
    have step := (down.child (segments n (by simp))).spared_makeDirectories sound apart
    rwa [failed] at step
  | case7 _ _ _ _ _ _ _ n _ _ _ _ _ fs' done _ e fs'' failed ih =>
    have step := (down.child (segments n (by simp))).spared_makeDirectories sound apart
    rw [done] at step
    have inner := ih step.sound step.sound.segments_of_list (down.child (segments n (by simp)))
      (apart.extended step.extended)
    rw [failed] at inner
    exact step.trans inner
  | case8 _ _ _ _ _ _ _ n _ _ _ _ _ fs' done _ copied' fs'' finished ih ih' =>
    have step := (down.child (segments n (by simp))).spared_makeDirectories sound apart
    rw [done] at step
    have inner := ih step.sound step.sound.segments_of_list (down.child (segments n (by simp)))
      (apart.extended step.extended)
    rw [finished] at inner
    have both := step.trans inner
    exact both.trans (ih' both.sound (fun m hm => segments m (by simp [hm])) down (apart.extended both.extended))
  | case9 _ _ _ _ _ _ _ n _ _ _ _ _ fs' done _ =>
    have step := (down.child (segments n (by simp))).spared_makeDirectories sound apart
    rwa [done] at step

/-! ## Where the output is -/

theorem splitPresent_eq (fs : FileSystem) (up after : List Name) :
    ∃ tail, (splitPresent fs up after).2 = tail ++ after ∧ up.reverse = (splitPresent fs up after).1 ++ tail ∧
      ∀ m ms, tail = m :: ms → fs.present (Location.path ((splitPresent fs up after).1 ++ [m])) = false := by
  induction up generalizing after with
  | nil => exact ⟨[], rfl, rfl, by simp⟩
  | cons name up ih =>
    rw [splitPresent]
    split
    · exact ⟨[], rfl, by simp, by simp⟩
    · next absent =>
      obtain ⟨tail, others, whole, first⟩ := ih (name :: after)
      refine ⟨tail ++ [name], by simp [others], by simp [whole], fun m ms same => ?_⟩
      cases tail with
      | nil =>
        obtain ⟨rfl, -⟩ := List.cons.inj same
        rw [List.append_nil] at whole
        rw [← whole]
        simpa using absent
      | cons k ks =>
        obtain ⟨rfl, -⟩ := List.cons.inj same
        exact first _ _ rfl

theorem outputLocation_eq {p : Path} (found : outputLocation fs p = .ok target) :
    ∃ there missing l, fs.spelled p = there ++ missing ∧ fs.canonical (Location.path there) = .ok l ∧
      target = l ++ missing ∧ ∀ m ms, missing = m :: ms → fs.present (Location.path (there ++ [m])) = false := by
  obtain ⟨missing, others, whole, first⟩ := splitPresent_eq fs (fs.spelled p).reverse []
  rw [List.append_nil] at others
  rw [List.reverse_reverse] at whole
  unfold outputLocation at found
  dsimp only at found
  split at found
  · next l canonical =>
    obtain rfl := Except.ok.inj found
    exact ⟨_, missing, l, whole, canonical, congrArg (l ++ ·) others, first⟩
  · simp at found

theorem proper_outputLocation (sound : fs.Sound) {p : Path} (found : outputLocation fs p = .ok target) :
    target.Proper := by
  obtain ⟨there, missing, l, whole, canonical, rfl, -⟩ := outputLocation_eq found
  have spelled : (fs.spelled p).Proper := sound.proper_resolve (List.Subset.refl _)
  rw [whole] at spelled
  obtain ⟨n, node⟩ := FileSystem.node?_of_canonical canonical
  have there' : Location.Proper l := sound.names l n node
  exact there'.append fun name hname => spelled name (List.mem_append_right there hname)

/-! ## The whole copy -/

/-- **Copying leaves the source alone** if the output is apart from it, whatever comes of the copy. An output
inside the source is refused, so that nothing has to be known about it. -/
theorem Directory.copyRecords_spares (d : Directory) (output : Path) (sound : fs.Sound)
    (found : d.location fs = .ok source)
    (apart : ∀ target, outputLocation fs output = .ok target → ¬ source <+: target → Apart fs source target)
    (l : Location) (below : source <+: l) : (d.copyRecords output fs).2.node? l = fs.node? l := by
  unfold copyRecords
  rw [found]
  dsimp only
  cases output' : outputLocation fs output with
  | error e => rfl
  | ok target =>
    dsimp only
    split
    · rfl
    next outside =>
    have outside : ¬ source <+: target := by simpa using outside
    have apart := apart target output' outside
    have proper := proper_outputLocation sound output'
    have made := spared_makeBelow sound proper (List.prefix_refl target) apart
    split
    · next e fs' failed =>
      rw [failed] at made
      exact made.kept l below
    · next fs' done =>
      rw [done] at made
      have copied := spared_copyEntries (maxPath - source.path.bytes.length) [source] source source.path target.path
        (fs'.list source) 0 made.sound made.sound.segments_of_list ⟨target, rfl, proper, List.prefix_refl target⟩
        (apart.extended made.extended)
      exact (made.trans copied).kept l below

/-- The directory `in` with the file `a`, and beside it `out` with another file `a`. -/
def besides : FileSystem where
  entries := [
    ([[0x69, 0x6e]], .directory),
    ([[0x69, 0x6e], [0x61]], .file [1]),
    ([[0x6f, 0x75, 0x74]], .directory),
    ([[0x6f, 0x75, 0x74], [0x61]], .file [2])]
  workingDirectory := []

theorem besides_noLinks (l : Location) (n : Node) (node : besides.node? l = some n) : ¬ n.IsLink := by
  obtain rfl | mem := FileSystem.eq_directory_or_mem node
  · simp [Node.IsLink]
  · simp only [besides, List.mem_cons, Prod.mk.injEq, List.not_mem_nil, or_false] at mem
    obtain ⟨-, rfl⟩ | ⟨-, rfl⟩ | ⟨-, rfl⟩ | ⟨-, rfl⟩ := mem <;> simp [Node.IsLink]

theorem besides_apart : Apart besides [[0x69, 0x6e]] [[0x6f, 0x75, 0x74]] :=
  apart_of_noLinks (by decide) (by decide) fun l n _ => besides_noLinks l n

theorem copyRecords_spares_besides :
    (Directory.copyRecords ⟨⟨"records", ⟨[0x2f, 0x69, 0x6e]⟩, none⟩, by decide⟩ ⟨[0x2f, 0x6f, 0x75, 0x74]⟩
      besides).2.node? [[0x69, 0x6e], [0x61]] = some (.file [1]) := by
  have output : outputLocation besides ⟨[0x2f, 0x6f, 0x75, 0x74]⟩ = .ok [[0x6f, 0x75, 0x74]] := by cbv
  refine @Directory.copyRecords_spares besides [[0x69, 0x6e]] _ _
    (FileSystem.sound_of_entries (by decide) (by decide) (by decide)) (by cbv) (fun target found _ => ?_)
    [[0x69, 0x6e], [0x61]] (by decide)
  obtain rfl := Except.ok.inj (output.symm.trans found)
  exact besides_apart

/-- The directory `r/s` with the file `f`, and with a directory of its own name in which another `f` is. -/
def nested : FileSystem where
  entries := [
    ([[0x72]], .directory),
    ([[0x72], [0x73]], .directory),
    ([[0x72], [0x73], [0x66]], .file [1]),
    ([[0x72], [0x73], [0x73]], .directory),
    ([[0x72], [0x73], [0x73], [0x66]], .file [2])]
  workingDirectory := []

/-- **Copying to the directory above can overwrite the source**: the inner `f` is copied over the outer one. -/
theorem copyRecords_overwrites_source :
    let o := Directory.copyRecords ⟨⟨"records", ⟨[0x2f, 0x72, 0x2f, 0x73]⟩, none⟩, by decide⟩ ⟨[0x2f, 0x72]⟩ nested
    o.1 = .ok 2 ∧ nested.node? [[0x72], [0x73], [0x66]] = some (.file [1]) ∧
      o.2.node? [[0x72], [0x73], [0x66]] = some (.file [2]) := by
  refine ⟨?_, ?_, ?_⟩ <;> cbv

end Records

end ModelDepot
