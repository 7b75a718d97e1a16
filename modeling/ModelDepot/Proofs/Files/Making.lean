import ModelDepot.Proofs.Files.Changes
import ModelDepot.Proofs.Files.Below

/-! # Making directories below a directory

Where a path leads, directories for two names after it can be made. What is asked of the names and of the
path is all that can go wrong, and nothing but the two directories is added.
-/

namespace ModelDepot

namespace Files

/-! ## The directories above -/

namespace Path

theorem trimIdle_concat (pieces : List Name) {name : Name} (busy : isIdle name = false) :
    trimIdle (pieces ++ [name]) = pieces ++ [name] := by
  simp [trimIdle, busy]

theorem isIdle_of_segment {name : Name} (segment : Segment name) : isIdle name = false := by
  simp [isIdle, segment.ne_nil, segment.ne_dot]

theorem splitSlashes_child_child (p : Path) {m n : Name} (hm : Segment m) (hn : Segment n) :
    ∃ pieces, splitSlashes (p.child m).bytes = pieces ++ [m] ∧
      splitSlashes ((p.child m).child n).bytes = pieces ++ [m] ++ [n] := by
  obtain ⟨pieces, spelled, -⟩ := p.splitSlashes_child hm
  obtain ⟨pieces', spelled', same | same⟩ := (p.child m).splitSlashes_child hn
  · exact ⟨pieces, spelled, by rw [spelled', ← same, spelled]⟩
  · have last : m = [] := by simpa using congrArg List.getLast? (spelled.symm.trans same)
    exact absurd last hm.ne_nil

theorem parent?_of_busy {p : Path} {pieces : List Name} {m n : Name}
    (spelled : splitSlashes p.bytes = pieces ++ [m] ++ [n]) (hm : isIdle m = false) (hn : isIdle n = false) :
    p.parent? = some ⟨joinSlashes (pieces ++ [m])⟩ := by
  have kept : ∀ start more, p.parts = (start, more ++ [m] ++ [n]) → p.parent? = some (ofParts start (more ++ [m])) := by
    intro start more parts
    have whole := trimIdle_concat (more ++ [m]) hn
    simp only [parent?, parts]
    rw [whole]
    split
    · next idle => simp at idle
    · next idle => rw [← idle, List.dropLast_concat, trimIdle_concat _ hm]
  cases pieces with
  | nil =>
    obtain ⟨notEmpty, notDot⟩ : m ≠ [] ∧ m ≠ dot := by simpa [isIdle] using hm
    rw [kept [] [] (by simp [parts, spelled, notEmpty, notDot])]
    rfl
  | cons first more =>
    unfold parts at kept
    rw [spelled] at kept
    by_cases absolute : first = []
    · rw [kept [slash] more (by simp [absolute])]
      obtain ⟨b, bs, same⟩ := List.exists_cons_of_ne_nil (List.append_ne_nil_of_right_ne_nil more (List.cons_ne_nil m []))
      simp [ofParts, absolute, same, joinSlashes]
    · by_cases dotted : first = dot
      · rw [kept dot more (by simp [dotted, dot])]
        simp [ofParts, dotted, dot, slash]
      · rw [kept [] (first :: more) (by simp [absolute, dotted])]
        rfl

theorem parent?_child_child (p : Path) {m n : Name} (hm : Segment m) (hn : Segment n) :
    ((p.child m).child n).parent? = some (p.child m) := by
  obtain ⟨pieces, above, whole⟩ := p.splitSlashes_child_child hm hn
  rw [parent?_of_busy whole (isIdle_of_segment hm) (isIdle_of_segment hn), ← above, joinSlashes_splitSlashes]

theorem lineage_child_child (p : Path) {m n : Name} (hm : Segment m) (hn : Segment n) :
    ∃ more, ((p.child m).child n).lineage = (p.child m).child n :: p.child m :: more := by
  rw [lineage, lineageFrom, parent?_child_child p hm hn]
  exact ⟨_, rfl⟩

theorem bytes_child_ne_nil (p : Path) {name : Name} (segment : Segment name) : (p.child name).bytes ≠ [] := by
  intro empty
  obtain ⟨pieces, spelled, -⟩ := p.splitSlashes_child segment
  rw [empty] at spelled
  have last : name = [] := by simpa [splitSlashes] using (congrArg List.getLast? spelled).symm
  exact segment.ne_nil last

theorem fault?_ne_noEntry (p : Path) : p.fault? ≠ some .noEntry := by
  unfold fault?
  split
  · simp
  · split <;> simp

theorem fault?_of_child {p : Path} {name : Name} (segment : Segment name) (fine : (p.child name).fault? = none) :
    p.fault? = none := by
  obtain ⟨between, bytes⟩ := p.exists_bytes_child
  unfold fault? at fine ⊢
  rw [bytes name segment, List.append_assoc] at fine
  split at fine
  · simp at fine
  next zero =>
  split at fine
  · simp at fine
  next short =>
  simp only [List.contains_eq_mem, List.mem_append, decide_eq_true_eq, not_or, List.length_append] at zero short
  rw [if_neg (by simpa using zero.1), if_neg (by omega)]

end Path

/-! ## Following names after a path -/

namespace FileSystem

variable {fs : FileSystem} {links left : Nat} {here l : Location} {names more : List Name} {p : Path}

theorem Way.of_concat_nil (way : Way fs links here (names ++ [[]]) left l) : Way fs links here names left l := by
  generalize whole : names ++ [[]] = all at way
  induction way generalizing names with
  | stay => simp at whole
  | @idle links left here l name rest directory idle on ih =>
    cases names with
    | nil =>
      obtain ⟨rfl, rfl⟩ := List.cons.inj whole
      cases on
      exact .stay _ _
    | cons first others =>
      obtain ⟨rfl, rfl⟩ := List.cons.inj whole
      exact .idle directory idle (ih rfl)
  | @up links left here l rest directory on ih =>
    cases names with
    | nil => exact absurd (List.cons.inj whole).1 (by decide)
    | cons first others =>
      obtain ⟨rfl, rfl⟩ := List.cons.inj whole
      exact .up directory (ih rfl)
  | @down links left here l name rest n directory proper node notLink on ih =>
    cases names with
    | nil => exact absurd (List.cons.inj whole).1.symm proper.ne_nil
    | cons first others =>
      obtain ⟨rfl, rfl⟩ := List.cons.inj whole
      exact .down directory proper node notLink (ih rfl)
  | @link links left here l name rest target directory proper node on ih =>
    cases names with
    | nil => exact absurd (List.cons.inj whole).1.symm proper.ne_nil
    | cons first others =>
      obtain ⟨rfl, rfl⟩ := List.cons.inj whole
      exact .link directory proper node (ih (List.append_assoc _ _ _))

theorem Leads.way_of_pieces (leads : fs.Leads p l) {pieces : List Name}
    (before : splitSlashes p.bytes = pieces ∨ splitSlashes p.bytes = pieces ++ [[]]) :
    ∃ left, Way fs maxLinks (if p.isAbsolute then [] else fs.workingDirectory) pieces left l := by
  obtain ⟨left, way⟩ := leads
  refine ⟨left, ?_⟩
  obtain same | same := before
  · exact same ▸ way
  · exact Way.of_concat_nil (same ▸ way)

theorem Leads.locate_below (leads : fs.Leads p l) (last : Bool) (some' : names ≠ []) (segments : ∀ n ∈ names, Segment n) :
    ∃ left, fs.locate last (p.below names) =
      match (p.below names).fault? with
      | some e => .error e
      | none => fs.follow last left l names := by
  obtain ⟨pieces, spelled, before⟩ := p.splitSlashes_below some' segments
  obtain ⟨left, way⟩ := leads.way_of_pieces before
  refine ⟨left, ?_⟩
  have notEmpty : (p.below names).bytes ≠ [] := by
    intro empty
    rw [empty, splitSlashes] at spelled
    obtain ⟨n, hn⟩ := List.exists_mem_of_ne_nil names some'
    have : n ∈ pieces ++ names := List.mem_append_right _ hn
    rw [← spelled, List.mem_singleton] at this
    exact (segments n hn).ne_nil this
  have looked := fs.locate_eq last notEmpty
  rw [spelled, p.isAbsolute_below names segments, way.follow last (.inl some')] at looked
  exact looked

theorem follow_segment {last : Bool} {name : Name} {rest : List Name} (directory : fs.node? here = some .directory)
    (segment : Segment name) (noLink : ∀ n, fs.node? (here ++ [name]) = some n → ¬ n.IsLink) :
    fs.follow last links here (name :: rest) =
      if maxName < name.length then .error .nameTooLong
      else
        match fs.node? (here ++ [name]) with
        | none => if rest = [] then .ok (.free (here ++ [name])) else .error .noEntry
        | some _ => fs.follow last links (here ++ [name]) rest := by
  by_cases long : maxName < name.length
  · rw [follow.eq_def]
    simp [directory, segment.ne_nil, segment.ne_dot, segment.ne_dotDot, long]
  · have proper : Proper name := segment.proper (by omega)
    rw [if_neg long]
    cases node : fs.node? (here ++ [name]) with
    | none => rw [follow_proper last directory proper, node]
    | some n => rw [follow_down last directory proper node (noLink n node)]

theorem short_of_follow {last : Bool} {spot : Spot} (segments : ∀ n ∈ names, Segment n)
    (noLinks : ∀ ns n, ns ≠ [] → fs.node? (here ++ ns) = some n → ¬ n.IsLink)
    (found : fs.follow last links here names = .ok spot) : ∀ n ∈ names, n.length ≤ maxName := by
  induction names generalizing here with
  | nil => simp
  | cons name rest ih =>
    have directory := directory_of_follow found
    rw [follow_segment directory (segments name (by simp)) fun n => noLinks [name] n (by simp)] at found
    split at found
    · simp at found
    next short =>
    have others : ∀ n ∈ rest, n.length ≤ maxName := by
      cases node : fs.node? (here ++ [name]) with
      | none =>
        cases rest with
        | nil => simp
        | cons m rest => simp [node] at found
      | some x =>
        rw [node] at found
        have below : ∀ ns n, ns ≠ [] → fs.node? (here ++ [name] ++ ns) = some n → ¬ n.IsLink := fun ns n _ => by
          simpa using noLinks (name :: ns) n (by simp)
        exact ih (fun m hm => segments m (by simp [hm])) below found
    intro n hn
    obtain rfl | hn := List.mem_cons.mp hn
    · omega
    · exact others n hn

/-! ## Directories for two names -/

/-- The file system with a directory at a location if nothing was there. -/
def furnish (fs : FileSystem) (l : Location) : FileSystem := if (fs.node? l).isNone then fs.put l .directory else fs

theorem furnished_furnish (fs : FileSystem) (ne : l ≠ []) : Furnished fs (fs.furnish l) := by
  unfold furnish
  split
  · next free => exact furnished_put ne (by simpa using free)
  · exact .refl fs

theorem node?_furnish (fs : FileSystem) (ne : l ≠ []) (k : Location) :
    (fs.furnish l).node? k = if k = l ∧ fs.node? l = none then some .directory else fs.node? k := by
  unfold furnish
  by_cases free : fs.node? l = none
  · simp [free, node?_put fs ne]
  · simp [free]

theorem furnish_of_node? {n : Node} (there : fs.node? l = some n) : fs.furnish l = fs := by
  simp [furnish, there]

/-- A directory can be there: nothing else is. -/
def Furnishable (fs : FileSystem) (l : Location) : Prop := fs.node? l = none ∨ fs.node? l = some .directory

theorem Furnishable.not_isLink (h : fs.Furnishable l) : ∀ n, fs.node? l = some n → ¬ n.IsLink := by
  rintro n node ⟨target, rfl⟩
  obtain free | there := h <;> simp_all

theorem Furnishable.node?_furnish (h : fs.Furnishable l) (ne : l ≠ []) :
    (fs.furnish l).node? l = some .directory := by
  rw [FileSystem.node?_furnish fs ne]
  obtain free | there := h <;> simp_all

theorem makeLineage_of_error {q : Path} {parents : List Path} {e : Errno} (some' : q.bytes ≠ [])
    (failed : fs.makeDirectory q = .error e) (other : e ≠ .noEntry) :
    fs.makeLineage (q :: parents) = (if fs.isDirectory q then .ok () else .error e, fs) := by
  rw [makeLineage, if_neg some', failed]
  cases e <;> first | rfl | exact absurd rfl other

theorem makeLineage_of_ok {q : Path} {parents : List Path} (some' : q.bytes ≠ []) {fs' : FileSystem}
    (made : fs.makeDirectory q = .ok fs') : fs.makeLineage (q :: parents) = (.ok (), fs') := by
  rw [makeLineage, if_neg some', made]

theorem makeLineage_of_missing {q : Path} {parents : List Path} (some' : q.bytes ≠ []) {fs' : FileSystem}
    (missing : fs.makeDirectory q = .error .noEntry) (above : fs.makeLineage parents = (.ok (), fs'))
    (again : fs'.makeDirectory q ≠ .error .noEntry) :
    fs.makeLineage (q :: parents) = fs'.makeLineage (q :: parents) := by
  rw [makeLineage, if_neg some', missing]
  simp only [above]
  cases made : fs'.makeDirectory q with
  | ok fs'' => rw [makeLineage_of_ok some' made]
  | error e => rw [makeLineage_of_error some' made fun same => again (same ▸ made)]

section
variable {m n : Name} (leads : fs.Leads p l) (directory : fs.node? l = some .directory) (hm : Segment m) (hn : Segment n)
  (first : fs.Furnishable (l ++ [m])) (second : fs.Furnishable (l ++ [m, n]))
include leads directory hm first

theorem locate_child (last : Bool) :
    fs.locate last (p.child m) =
      match (p.child m).fault? with
      | some e => .error e
      | none =>
        if maxName < m.length then .error .nameTooLong
        else if (fs.node? (l ++ [m])).isNone then .ok (.free (l ++ [m]))
        else .ok (.found (l ++ [m]) .directory) := by
  obtain ⟨left, here⟩ := leads.locate_below last (List.cons_ne_nil m []) (by simpa using hm)
  rw [show p.below [m] = p.child m from rfl] at here
  rw [here, follow_segment directory hm first.not_isLink]
  obtain free | there := first
  · simp [free]
  · simp [there, follow_nil last there]

include hn second

theorem locate_child_child (last : Bool) :
    fs.locate last ((p.child m).child n) =
      match ((p.child m).child n).fault? with
      | some e => .error e
      | none =>
        if maxName < m.length then .error .nameTooLong
        else if (fs.node? (l ++ [m])).isNone then .error .noEntry
        else if maxName < n.length then .error .nameTooLong
        else if (fs.node? (l ++ [m, n])).isNone then .ok (.free (l ++ [m, n]))
        else .ok (.found (l ++ [m, n]) .directory) := by
  obtain ⟨left, here⟩ := leads.locate_below last (List.cons_ne_nil m [n]) (by simpa using ⟨hm, hn⟩)
  rw [show p.below [m, n] = (p.child m).child n from rfl] at here
  rw [here, follow_segment directory hm first.not_isLink]
  obtain free | there := first
  · simp [free]
  · have pair : l ++ [m] ++ [n] = l ++ [m, n] := by simp
    simp only [there, follow_segment there hn (pair ▸ second.not_isLink), pair]
    obtain free' | there' := second
    · simp [free']
    · simp [there', follow_nil last there']

omit hn second in
theorem makeDirectory_child :
    fs.makeDirectory (p.child m) =
      match (p.child m).fault? with
      | some e => .error e
      | none =>
        if maxName < m.length then .error .nameTooLong
        else if (fs.node? (l ++ [m])).isNone then .ok (fs.furnish (l ++ [m]))
        else .error .alreadyExists := by
  rw [makeDirectory, unslashed_child hm, locate_child leads directory hm first]
  cases (p.child m).fault? with
  | some e => rfl
  | none =>
    by_cases long : maxName < m.length
    · simp [long]
    · by_cases free : (fs.node? (l ++ [m])).isNone <;> simp [long, free, furnish]

theorem makeDirectory_child_child :
    fs.makeDirectory ((p.child m).child n) =
      match ((p.child m).child n).fault? with
      | some e => .error e
      | none =>
        if maxName < m.length then .error .nameTooLong
        else if (fs.node? (l ++ [m])).isNone then .error .noEntry
        else if maxName < n.length then .error .nameTooLong
        else if (fs.node? (l ++ [m, n])).isNone then .ok (fs.furnish (l ++ [m, n]))
        else .error .alreadyExists := by
  rw [makeDirectory, unslashed_child hn, locate_child_child leads directory hm hn first second]
  cases ((p.child m).child n).fault? with
  | some e => rfl
  | none =>
    by_cases longFirst : maxName < m.length
    · simp [longFirst]
    by_cases missing : (fs.node? (l ++ [m])).isNone
    · simp [longFirst, missing]
    by_cases longSecond : maxName < n.length
    · simp [longFirst, missing, longSecond]
    · by_cases free : (fs.node? (l ++ [m, n])).isNone <;> simp [longFirst, missing, longSecond, free, furnish]

theorem isDirectory_child_child :
    fs.isDirectory ((p.child m).child n) =
      match ((p.child m).child n).fault? with
      | some _ => false
      | none =>
        if maxName < m.length then false
        else if (fs.node? (l ++ [m])).isNone then false
        else if maxName < n.length then false
        else (fs.node? (l ++ [m, n])).isSome := by
  rw [isDirectory, status, locate_child_child leads directory hm hn first second]
  cases ((p.child m).child n).fault? with
  | some e => rfl
  | none =>
    by_cases longFirst : maxName < m.length
    · simp [longFirst]
    by_cases missing : (fs.node? (l ++ [m])).isNone
    · simp [longFirst, missing]
    by_cases longSecond : maxName < n.length
    · simp [longFirst, missing, longSecond]
    · cases free : fs.node? (l ++ [m, n]) <;> simp [longFirst, missing, longSecond]

omit first in
theorem makeLineage_child_child (there : fs.node? (l ++ [m]) = some .directory)
    (fine : ((p.child m).child n).fault? = none) (short : ¬ maxName < m.length) (parents : List Path) :
    fs.makeDirectory ((p.child m).child n) ≠ .error .noEntry ∧
      fs.makeLineage ((p.child m).child n :: parents) =
        if maxName < n.length then (.error .nameTooLong, fs) else (.ok (), fs.furnish (l ++ [m, n])) := by
  have some' := (p.child m).bytes_child_ne_nil hn
  have made := makeDirectory_child_child leads directory hm hn (.inr there) second
  have isThere := isDirectory_child_child leads directory hm hn (.inr there) second
  simp only [fine, short, there, Option.isNone_some, Bool.false_eq_true, if_false] at made isThere
  by_cases long : maxName < n.length
  · simp only [long, if_true] at made isThere
    simp [made, makeLineage_of_error some' made (by simp), isThere, long]
  by_cases free : (fs.node? (l ++ [m, n])).isNone
  · simp only [long, free, if_true, if_false] at made
    simp [made, makeLineage_of_ok some' made, long]
  · simp only [long, free, if_false] at made isThere
    have same : fs.furnish (l ++ [m, n]) = fs := if_neg free
    rw [Option.isSome_iff_ne_none.mpr (by simpa using free)] at isThere
    simp [made, makeLineage_of_error some' made (by simp), isThere, long, same]

/-- **Two directories below a directory** are made if the path and the names are short enough and without zero
bytes. Otherwise no more than the first of them is made. -/
theorem makeDirectories_child_child :
    fs.makeDirectories ((p.child m).child n) =
      match ((p.child m).child n).fault? with
      | some e => (.error e, fs)
      | none =>
        if maxName < m.length then (.error .nameTooLong, fs)
        else if maxName < n.length then (.error .nameTooLong, fs.furnish (l ++ [m]))
        else (.ok (), (fs.furnish (l ++ [m])).furnish (l ++ [m, n])) := by
  obtain ⟨more, lineage⟩ := p.lineage_child_child hm hn
  have some' := (p.child m).bytes_child_ne_nil hn
  have made := makeDirectory_child_child leads directory hm hn first second
  have isThere := isDirectory_child_child leads directory hm hn first second
  rw [makeDirectories, lineage]
  cases fault : ((p.child m).child n).fault? with
  | some e =>
    have other : e ≠ .noEntry := fun missing => Path.fault?_ne_noEntry _ (missing ▸ fault)
    rw [fault] at made isThere
    simp [makeLineage_of_error some' made other, isThere]
  | none =>
    rw [fault] at made isThere
    by_cases longFirst : maxName < m.length
    · simp only [longFirst, if_true] at made isThere
      simp [makeLineage_of_error some' made (by simp), isThere, longFirst]
    have ne : l ++ [m] ≠ [] := by simp
    have furnished := fs.furnished_furnish ne
    have later : (fs.furnish (l ++ [m])).node? (l ++ [m, n]) = fs.node? (l ++ [m, n]) := by
      rw [node?_furnish fs ne, if_neg (by simp)]
    have rest := makeLineage_child_child (leads.grown furnished.grown) (furnished.grown.directory directory) hm hn
      (by rwa [Furnishable, later]) (first.node?_furnish ne) fault longFirst (p.child m :: more)
    rw [if_neg longFirst, ← rest.2]
    by_cases missing : (fs.node? (l ++ [m])).isNone
    · simp only [longFirst, missing, if_true, if_false] at made
      have above := makeDirectory_child leads directory hm first
      simp only [Path.fault?_of_child hn fault, longFirst, missing, if_true, if_false] at above
      rw [makeLineage_of_missing some' made (makeLineage_of_ok (p.bytes_child_ne_nil hm) above) rest.1]
    · rw [show fs.furnish (l ++ [m]) = fs from if_neg missing]

end

/-! ## Names in directories -/

theorem Leads.child {m : Name} (leads : fs.Leads p l) (directory : fs.node? l = some .directory) (hm : Segment m)
    (short : m.length ≤ maxName) {n : Node} (node : fs.node? (l ++ [m]) = some n) (notLink : ¬ n.IsLink) :
    fs.Leads (p.child m) (l ++ [m]) := by
  obtain ⟨pieces, spelled, before⟩ := p.splitSlashes_child hm
  obtain ⟨left, way⟩ := leads.way_of_pieces before
  have proper : Proper m := ⟨hm.ne_nil, hm.ne_dot, hm.ne_dotDot, short⟩
  refine ⟨left, ?_⟩
  rw [p.isAbsolute_child hm, spelled]
  exact way.append (.down directory proper node notLink (.stay _ _))

theorem Leads.locate_child {m : Name} (leads : fs.Leads p l) (directory : fs.node? l = some .directory) (hm : Segment m)
    (short : m.length ≤ maxName) (last : Bool) (noLink : last = true → ∀ x, fs.node? (l ++ [m]) = some x → ¬ x.IsLink) :
    fs.locate last (p.child m) =
      match (p.child m).fault? with
      | some e => .error e
      | none =>
        match fs.node? (l ++ [m]) with
        | none => .ok (.free (l ++ [m]))
        | some x => .ok (.found (l ++ [m]) x) := by
  obtain ⟨left, here⟩ := leads.locate_below last (List.cons_ne_nil m []) (by simpa using hm)
  rw [show p.below [m] = p.child m from rfl] at here
  have proper : Proper m := ⟨hm.ne_nil, hm.ne_dot, hm.ne_dotDot, short⟩
  rw [here, follow_proper last directory proper]
  cases node : fs.node? (l ++ [m]) with
  | none => rfl
  | some x =>
    cases x with
    | link target =>
      cases last with
      | true => exact absurd ⟨target, rfl⟩ (noLink rfl _ node)
      | false => rfl
    | _ => simp only [follow_nil last node]

end FileSystem

end Files

end ModelDepot
