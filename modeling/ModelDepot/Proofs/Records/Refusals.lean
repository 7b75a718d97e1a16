import Mathlib
import ModelDepot.Proofs.Records.Source
import ModelDepot.Proofs.Files.Reaching

/-! # When copying records is refused

A copy is refused if its output is the source directory or lies in it, and for no other reason: once it has begun, it
can only fail because of the file system or of a link that the walk cannot follow. What is refused changes nothing.
-/

namespace ModelDepot

open Files (FileSystem Location Name Path)

namespace Records

/-! ## Faults of a copy that has begun -/

/-- The file system or the walk is at fault. -/
def Fault.OfCopying : Fault → Prop
  | .file _ _ | .walk _ => True
  | .invalid _ | .sourceNotFound _ | .outputInsideSource _ _ => False

section

variable {fs : FileSystem} {fault : Fault}

theorem entryAt_fault {above : List Location} {here : Location} {p : Path}
    (failed : entryAt fs above here p = .error fault) : fault.OfCopying := by
  unfold entryAt at failed
  split at failed
  · simp at failed
  · simp at failed
  · split at failed
    · obtain rfl := Except.error.inj failed
      trivial
    · split at failed
      · obtain rfl := Except.error.inj failed
        trivial
      · simp at failed
    · simp at failed
    · simp at failed
  · simp at failed

theorem copyRecord_fault {origin into : Path} (failed : (copyRecord origin into fs).1 = .error fault) :
    fault.OfCopying := by
  unfold copyRecord at failed
  dsimp only at failed
  split at failed
  · obtain rfl := Except.error.inj failed
    trivial
  · split at failed
    · simp at failed
    · obtain rfl := Except.error.inj failed
      trivial

theorem copyEntries_fault {room : Nat} {above : List Location} {here : Location} {origin into : Path} {names : List Name}
    {copied : Nat} (failed : (copyEntries room above here origin into names copied fs).1 = .error fault) :
    fault.OfCopying := by
  fun_induction copyEntries room above here origin into names copied fs with
  | case1 => simp at failed
  | case2 _ _ _ _ _ _ _ _ _ _ e unknown =>
    obtain rfl := Except.error.inj failed
    exact entryAt_fault unknown
  | case3 _ _ _ _ _ _ _ _ _ _ _ ih => exact ih failed
  | case4 _ _ _ _ _ _ _ _ _ _ _ _ e fs' notCopied =>
    obtain rfl := Except.error.inj failed
    exact copyRecord_fault (congrArg Prod.fst notCopied)
  | case5 _ _ _ _ _ _ _ _ _ _ _ _ _ _ ih => exact ih failed
  | case6 =>
    obtain rfl := Except.error.inj failed
    trivial
  | case7 _ _ _ _ _ _ _ _ _ _ _ _ _ fs' _ _ e fs'' inner ih =>
    obtain rfl := Except.error.inj failed
    exact ih (congrArg Prod.fst inner)
  | case8 _ _ _ _ _ _ _ _ _ _ _ _ _ _ _ _ _ _ _ _ ih => exact ih failed
  | case9 =>
    obtain rfl := Except.error.inj failed
    trivial

namespace Directory

variable {d : Directory} {output : Path} {source target : Location}

theorem location_of_status (found : fs.status d.path = .ok (source, .directory)) : d.location fs = .ok source := by
  have there := (FileSystem.reaches_of_status found).2
  unfold location FileSystem.canonical
  rw [found]
  exact if_pos there

theorem copyRecords_of_inside (found : d.location fs = .ok source) (output' : outputLocation fs output = .ok target)
    (inside : source <+: target) :
    d.copyRecords output fs = (.error (.outputInsideSource target.path source.path), fs) := by
  unfold copyRecords
  simp only [found, output']
  rw [if_pos (List.isPrefixOf_iff_prefix.mpr inside)]

theorem copyRecords_fault (found : d.location fs = .ok source) (output' : outputLocation fs output = .ok target)
    (outside : ¬ source <+: target) (failed : (d.copyRecords output fs).1 = .error fault) : fault.OfCopying := by
  unfold copyRecords at failed
  simp only [found, output'] at failed
  rw [if_neg (by simpa using outside)] at failed
  split at failed
  · obtain rfl := Except.error.inj failed
    trivial
  · exact copyEntries_fault failed

theorem unchanged_of_fault (failed : (d.copyRecords output fs).1 = .error fault) (before : ¬ fault.OfCopying) :
    (d.copyRecords output fs).2 = fs := by
  cases found : d.location fs with
  | error e => simp only [copyRecords, found]
  | ok source =>
    cases output' : outputLocation fs output with
    | error e => simp only [copyRecords, found, output']
    | ok target =>
      by_cases inside : source <+: target
      · rw [copyRecords_of_inside found output' inside]
      · exact absurd (copyRecords_fault found output' inside failed) before

/-- **A copy is refused exactly if its output is the source or lies in it**, name by name: a directory beside the
source whose name only begins with the name of the source is not in it. A copy that is refused, or that does not find
its source, has changed nothing. -/
theorem copyRecords_refuses (d : Directory) (output : Path) (fs : FileSystem) :
    (∀ source target, fs.status d.path = .ok (source, .directory) → outputLocation fs output = .ok target →
      (∀ o s, (d.copyRecords output fs).1 = .error (.outputInsideSource o s) ↔
        (∃ more, target = source ++ more) ∧ o = target.path ∧ s = source.path) ∧
      ∀ up name more rest, source = up ++ [name] → target = up ++ (name ++ more) :: rest → more ≠ [] →
        ∀ o s, (d.copyRecords output fs).1 ≠ .error (.outputInsideSource o s)) ∧
    (∀ o s, (d.copyRecords output fs).1 = .error (.outputInsideSource o s) → (d.copyRecords output fs).2 = fs) ∧
    ∀ p, (d.copyRecords output fs).1 = .error (.sourceNotFound p) → (d.copyRecords output fs).2 = fs := by
  refine ⟨fun source target found output' => ?_, fun _ _ failed => unchanged_of_fault failed id,
    fun _ failed => unchanged_of_fault failed id⟩
  have found := location_of_status found
  have inside : ∀ o s, (d.copyRecords output fs).1 = .error (.outputInsideSource o s) → source <+: target := by
    intro o s failed
    by_contra outside
    exact copyRecords_fault found output' outside failed
  refine ⟨fun o s => ⟨fun failed => ?_, ?_⟩, ?_⟩
  · have below := inside o s failed
    rw [copyRecords_of_inside found output' below, Except.error.injEq, Fault.outputInsideSource.injEq] at failed
    exact ⟨below.imp fun _ => Eq.symm, failed.1.symm, failed.2.symm⟩
  · rintro ⟨⟨more, rfl⟩, rfl, rfl⟩
    rw [copyRecords_of_inside found output' (List.prefix_append source more)]
  · rintro up name more rest rfl rfl longer o s failed
    have begins := (List.prefix_append_right_inj up).mp (inside o s failed)
    have same : name = name ++ more := (List.cons_prefix_cons.mp begins).1
    exact longer (List.self_eq_append_right.mp same)

/-- A new directory in `in` is refused, and the new directory `inn` beside it is not. -/
theorem copyRecords_refuses_besides :
    let d : Directory := ⟨⟨"records", ⟨[0x2f, 0x69, 0x6e]⟩, none⟩, by decide⟩
    d.copyRecords ⟨[0x69, 0x6e, 0x2f, 0x78, 0x2f, 0x79]⟩ besides =
        (.error (.outputInsideSource (Location.path [[0x69, 0x6e], [0x78], [0x79]]) (Location.path [[0x69, 0x6e]])),
          besides) ∧
      ∀ o s, (d.copyRecords ⟨[0x2f, 0x69, 0x6e, 0x6e]⟩ besides).1 ≠ .error (.outputInsideSource o s) := by
  intro d
  have found : besides.status d.path = .ok ([[0x69, 0x6e]], .directory) := by cbv
  constructor
  · have output : outputLocation besides ⟨[0x69, 0x6e, 0x2f, 0x78, 0x2f, 0x79]⟩ =
        .ok [[0x69, 0x6e], [0x78], [0x79]] := by cbv
    obtain ⟨refused, unchanged, -⟩ := d.copyRecords_refuses ⟨[0x69, 0x6e, 0x2f, 0x78, 0x2f, 0x79]⟩ besides
    have failed := ((refused _ _ found output).1 _ _).mpr ⟨⟨[[0x78], [0x79]], rfl⟩, rfl, rfl⟩
    exact Prod.ext failed (unchanged _ _ failed)
  · have output : outputLocation besides ⟨[0x2f, 0x69, 0x6e, 0x6e]⟩ = .ok [[0x69, 0x6e, 0x6e]] := by cbv
    exact ((d.copyRecords_refuses ⟨[0x2f, 0x69, 0x6e, 0x6e]⟩ besides).1 _ _ found output).2 [] [0x69, 0x6e] [0x6e] []
      rfl rfl (by decide)

end Directory

end

end Records

end ModelDepot
