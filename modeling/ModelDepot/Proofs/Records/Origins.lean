import Mathlib
import ModelDepot.Proofs.Records.Walk

/-! # Where the entries of a copy come from

Every entry that copying records creates is at the output, above it, or in it under the names of something that the
walk meets. If the walk stays apart from the output, it has met that before anything was copied. If a link leads the
walk into the output, it meets what the copy has created, and copies that again.
-/

namespace ModelDepot

open Files (FileSystem Location Name Node Path Segment maxPath)
open Files.FileSystem (Extended Grown)

namespace Records

variable {fs fs' fs₀ : FileSystem} {source target place here there : Location} {above : List Location} {r q : List Name}
  {name : Name} {p : Path} {e : Entry}

/-! ## Apart from the output -/

/-- All that was there is there, and nothing has changed where no path of the output, of a directory above it or of
a place below it leads. -/
structure Aside (target : Location) (fs fs' : FileSystem) : Prop where
  extended : Extended fs fs'
  kept : ∀ d, Apart fs d target → ∀ l, d <+: l → fs'.node? l = fs.node? l

theorem Aside.refl (target : Location) (fs : FileSystem) : Aside target fs fs := ⟨.refl fs, fun _ _ _ _ => rfl⟩

theorem Aside.step (aside : Aside target fs₀ fs) (extended : Extended fs fs')
    (spared : ∀ d, Apart fs d target → Files.FileSystem.Spared d fs fs') : Aside target fs₀ fs' where
  extended := aside.extended.trans extended
  kept := by
    intro d apart l below
    rw [(spared d (apart.extended aside.extended)).kept l below, aside.kept d apart l below]

theorem Aside.makeDirectories (aside : Aside target fs₀ fs) (sound : fs.Sound) (proper : place.Proper)
    (inside : target <+: place) : Aside target fs₀ (fs.makeDirectories place.path).2 :=
  aside.step (FileSystem.furnished_makeDirectories fs _).extended fun _ apart => spared_makeBelow sound proper inside apart

theorem Aside.copyRecord (aside : Aside target fs₀ fs) (sound : fs.Sound) (proper : place.Proper) (ne : place ≠ target)
    (inside : target <+: place) (origin : Path) : Aside target fs₀ (copyRecord origin place.path fs).2 := by
  refine aside.step (extended_copyRecord _ _ fs) fun d apart => ?_
  obtain rfl | ⟨front, name, rfl⟩ := List.eq_nil_or_concat place
  · exact absurd (List.prefix_nil.mp inside).symm ne
  · rw [List.concat_eq_append] at *
    have inside : target <+: front := (List.prefix_concat_iff.mp inside).resolve_left (Ne.symm ne)
    exact spared_copyRecordAt sound (fun n hn => proper n (by simp [hn])) inside apart (proper name (by simp)) origin

/-- Where a path leads while records are copied, it has led before. -/
def Steady (fs : FileSystem) (target : Location) (p : Path) : Prop :=
  ∀ fs', Aside target fs fs' → ∀ l n, fs'.status p = .ok (l, n) → ∃ n', fs.status p = .ok (l, n')

theorem steady_of_status {l : Location} {n : Node} (found : fs.status p = .ok (l, n)) : Steady fs target p := by
  intro fs' aside l' n' found'
  obtain ⟨m, again, -⟩ := FileSystem.status_grown aside.extended.toGrown found
  obtain ⟨rfl, -⟩ := Prod.mk.inj (Except.ok.inj (again.symm.trans found'))
  exact ⟨n, found⟩

/-- The walk is separate from the output: no path of the output, of a directory above it or of a place below it leads
into a directory that the walk goes into, and its links lead nowhere because of what is copied. -/
structure Separate (fs : FileSystem) (source target : Location) : Prop where
  directories : ∀ r above here, Visits fs source r above here → Apart fs here target
  links : ∀ r above place to', Listed fs source r above place → fs.node? place = some (.link to') →
    Steady fs target (Location.path (source ++ r))

/-- A location is not on the line of the output: neither lies in the other. -/
def Off (target l : Location) : Prop := ¬ l <+: target ∧ ¬ target <+: l

theorem Off.child (off : Off target here) (name : Name) : Off target (here ++ [name]) := by
  refine ⟨fun inside => off.1 ((List.prefix_append here [name]).trans inside), fun inside => ?_⟩
  obtain rfl | inside := List.prefix_concat_iff.mp inside
  · exact off.1 (List.prefix_append here [name])
  · exact off.2 inside

/-- The source is off the line of the output, every link of the walk leads somewhere off that line, and no link is on
the line itself. -/
structure Detached (fs : FileSystem) (source target : Location) : Prop where
  outside : Off target source
  noLinks : ∀ l n, l <+: target ∨ target <+: l → fs.node? l = some n → ¬ n.IsLink
  links : ∀ r above place to', Listed fs source r above place → fs.node? place = some (.link to') →
    ∃ l n, fs.status (Location.path (source ++ r)) = .ok (l, n) ∧ Off target l

namespace Detached

variable (detached : Detached fs source target)
include detached

theorem apart (off : Off target here) : Apart fs here target := apart_of_noLinks off.1 off.2 detached.noLinks

theorem off (visits : Visits fs source r above here) : Off target here := by
  induction visits with
  | start => exact detached.outside
  | into visits listed entry fits ih =>
    rcases directory_of_entryAt entry with ⟨rfl, -⟩ | ⟨to', node, found⟩
    · exact ih.child _
    · obtain ⟨l, n, found', off⟩ := detached.links _ _ _ to' (.mk visits listed) node
      obtain ⟨rfl, -⟩ := Prod.mk.inj (Except.ok.inj (found'.symm.trans found))
      exact off

theorem separate : Separate fs source target where
  directories := fun _ _ _ visits => detached.apart (detached.off visits)
  links := by
    intro r above place to' listed node
    obtain ⟨l, n, found, -⟩ := detached.links r above place to' listed node
    exact steady_of_status found

end Detached

/-! ## What was met before -/

theorem Separate.listed (separate : Separate fs₀ source target) (aside : Aside target fs₀ fs)
    (visits : Visits fs₀ source r above here) (listed : name ∈ fs.list here) :
    Listed fs₀ source (r ++ [name]) above (here ++ [name]) := by
  obtain ⟨n, node⟩ := FileSystem.node?_of_mem_list listed
  have same := aside.kept here (separate.directories _ _ _ visits) (here ++ [name]) (List.prefix_append _ _)
  exact .mk visits (FileSystem.mem_list_of_node? (same ▸ node))

theorem Separate.entryAt (separate : Separate fs₀ source target) (aside : Aside target fs₀ fs)
    (listed : Listed fs₀ source r above place)
    (entry : entryAt fs above place (Location.path (source ++ r)) = .ok e) :
    entryAt fs₀ above place (Location.path (source ++ r)) = .ok e := by
  obtain ⟨n, node⟩ := listed.node?
  have same : fs.node? place = fs₀.node? place := by
    cases listed with
    | mk visits _ => exact aside.kept _ (separate.directories _ _ _ visits) _ (List.prefix_append _ _)
  refine entryAt_of_like (same.trans node) node (.refl n) ?_ entry
  rintro ⟨to', rfl⟩ l m found
  obtain ⟨m', before⟩ := separate.links _ _ _ to' listed node fs aside l m found
  obtain ⟨m'', again, like⟩ := FileSystem.status_grown aside.extended.toGrown before
  obtain ⟨-, rfl⟩ := Prod.mk.inj (Except.ok.inj (again.symm.trans found))
  exact ⟨m', before, like.symm⟩

theorem Separate.visits (separate : Separate fs₀ source target) (aside : Aside target fs₀ fs)
    (visits : Visits fs source r above here) : Visits fs₀ source r above here := by
  induction visits with
  | start => exact .start
  | into visits listed entry fits ih =>
    have before := separate.listed aside ih listed
    have entry := separate.entryAt aside before entry
    exact .into ih (FileSystem.mem_list_of_node? before.node?.choose_spec) entry fits

/-- **What the walk meets while records are copied, it has met before**, if it is separate from the output. -/
theorem Separate.meets (separate : Separate fs₀ source target) (aside : Aside target fs₀ fs) (meets : Meets fs source r e) :
    Meets fs₀ source r e := by
  obtain ⟨above, place, ⟨visits, listed⟩, entry⟩ := meets
  have before := separate.listed aside (separate.visits aside visits) listed
  exact ⟨above, _, before, separate.entryAt aside before entry⟩

/-! ## What is created -/

theorem leads_of_copyRecord {origin : Path} (proper : place.Proper) {l : Location}
    (nothing : fs.node? l = none) (new : (copyRecord origin place.path fs).2.node? l ≠ none) :
    ∃ k : Location, k <+: place ∧ (copyRecord origin place.path fs).2.Leads k.path l := by
  refine copyRecord_keeps (I := fun fs' => fs'.node? l ≠ none → ∃ k : Location, k <+: place ∧ fs'.Leads k.path l)
    origin _ (fun new => ?_) (fun fs₁ fs₂ before copied new => ?_) new
  · rw [Location.parent_path proper] at new ⊢
    obtain ⟨k, front, leads⟩ := FileSystem.leads_of_makeDirectories proper.dropLast nothing new
    exact ⟨k, front.trans (List.dropLast_prefix place), leads⟩
  · cases between : fs₁.node? l with
    | none => exact ⟨place, List.prefix_refl _, FileSystem.leads_of_copy copied between new⟩
    | some n =>
      obtain ⟨k, front, leads⟩ := before (by simp [between])
      exact ⟨k, front, leads.grown (FileSystem.extended_copy copied).toGrown⟩

/-- A path leads to an entry: that of the output or above it, or one below it for something that the walk meets, and
has met from the first if it is separate from the output. -/
def Stems (fs₀ fs : FileSystem) (source target l : Location) : Prop :=
  ∃ k : Location, fs.Leads k.path l ∧
    (k <+: target ∨ ∃ r e, k = target ++ r ∧ Meets fs source r e ∧ (Separate fs₀ source target → Meets fs₀ source r e))

/-- The entries that have been created stem from the walk. -/
structure Rooted (source target : Location) (fs₀ fs : FileSystem) : Prop where
  aside : Aside target fs₀ fs
  stems : ∀ l, fs₀.node? l = none → fs.node? l ≠ none → Stems fs₀ fs source target l

theorem Rooted.step (rooted : Rooted source target fs₀ fs) (meets : Meets fs source r e) (aside : Aside target fs₀ fs')
    (extended : Extended fs fs')
    (created : ∀ l, fs.node? l = none → fs'.node? l ≠ none → ∃ k : Location, k <+: target ++ r ∧ fs'.Leads k.path l) :
    Rooted source target fs₀ fs' where
  aside := aside
  stems := by
    intro l nothing new
    cases between : fs.node? l with
    | some n =>
      obtain ⟨k, leads, up | ⟨q, e', rfl, met, before⟩⟩ := rooted.stems l nothing (by simp [between])
      · exact ⟨k, leads.grown extended.toGrown, .inl up⟩
      · exact ⟨_, leads.grown extended.toGrown, .inr ⟨q, e', rfl, met.grown extended.toGrown, before⟩⟩
    | none =>
      obtain ⟨k, before, leads⟩ := created l between new
      refine ⟨k, leads, ?_⟩
      rcases List.prefix_or_prefix_of_prefix before (List.prefix_append target r) with up | ⟨q, rfl⟩
      · exact .inl up
      · by_cases ne : q = []
        · exact .inl (by simp [ne])
        · obtain ⟨e', met⟩ := meets.front ((List.prefix_append_right_inj target).mp before) ne
          exact .inr ⟨q, e', rfl, met.grown extended.toGrown, fun separate => separate.meets rooted.aside met⟩

theorem Rooted.makes (proper : target.Proper) (sound : fs.Sound) (rooted : Rooted source target fs₀ fs)
    (meets : Meets fs source r (.directory there)) :
    Rooted source target fs₀ (fs.makeDirectories (Location.path (target ++ r))).2 := by
  have proper := proper.append (meets.proper sound)
  refine rooted.step meets (rooted.aside.makeDirectories sound proper (List.prefix_append _ _))
    (FileSystem.furnished_makeDirectories fs _).extended ?_
  intro l nothing new
  exact FileSystem.leads_of_makeDirectories proper nothing new

theorem Rooted.copies (proper : target.Proper) (sound : fs.Sound) (rooted : Rooted source target fs₀ fs)
    (meets : Meets fs source r .record) :
    Rooted source target fs₀ (copyRecord (Location.path (source ++ r)) (Location.path (target ++ r)) fs).2 := by
  have proper := proper.append (meets.proper sound)
  have ne : target ++ r ≠ target := by simp [meets.ne_nil]
  refine rooted.step meets (rooted.aside.copyRecord sound proper ne (List.prefix_append _ _) _)
    (extended_copyRecord _ _ fs) ?_
  intro l nothing new
  exact leads_of_copyRecord proper nothing new

/-! ## The walk is finite -/

theorem length_le_path (l : Location) : l.length ≤ (Location.path l).bytes.length := by
  induction l using List.reverseRecOn with
  | nil => simp
  | append_singleton front name ih =>
    by_cases ne : front = []
    · simp [ne, Location.path]
    · rw [length_path_concat ne, List.length_append]
      simp
      omega

theorem Visits.short (visits : Visits fs source r above here) : r.length ≤ maxPath := by
  cases visits with
  | start => simp
  | @into front _ _ name _ visits listed entry fits =>
    have := length_le_path (source ++ (front ++ [name]))
    simp only [List.length_append] at this ⊢
    omega

theorem Visits.names (visits : Visits fs source r above here) : ∀ n ∈ r, ∃ l, n ∈ fs.list l := by
  induction visits with
  | start => simp
  | into visits listed entry fits ih =>
    intro n hn
    rcases List.mem_append.mp hn with hn | hn
    · exact ih n hn
    · exact ⟨_, List.mem_singleton.mp hn ▸ listed⟩

theorem finite_lists {α : Type} {s : Set α} (finite : s.Finite) (k : Nat) :
    {l : List α | l.length ≤ k ∧ ∀ x ∈ l, x ∈ s}.Finite := by
  induction k with
  | zero =>
    refine (Set.finite_singleton []).subset ?_
    rintro l ⟨short, -⟩
    simpa using short
  | succ k ih =>
    refine ((Set.finite_singleton []).union (finite.image2 List.cons ih)).subset ?_
    rintro l ⟨short, all⟩
    cases l with
    | nil => exact .inl rfl
    | cons x rest =>
      refine .inr ⟨x, all x (by simp), rest, ⟨?_, fun y hy => all y (by simp [hy])⟩, rfl⟩
      simpa using short

/-- **The walk meets no more than so many entries**, whatever the links. -/
theorem finite_meets (fs : FileSystem) (source : Location) : {r | ∃ e, Meets fs source r e}.Finite := by
  have names : {n : Name | ∃ l, n ∈ fs.list l}.Finite := by
    refine ((fs.entries.filterMap fun e => e.1.getLast?).finite_toSet).subset ?_
    rintro n ⟨l, listed⟩
    obtain ⟨e, he, found⟩ := List.mem_filterMap.mp (List.mem_mergeSort.mp listed)
    refine List.mem_filterMap.mpr ⟨e, he, ?_⟩
    split at found
    · exact found
    · simp at found
  refine (finite_lists names (maxPath + 1)).subset ?_
  rintro r ⟨e, above, place, ⟨visits, listed⟩, -⟩
  refine ⟨by simpa using visits.short, ?_⟩
  intro n hn
  rcases List.mem_append.mp hn with hn | hn
  · exact visits.names n hn
  · exact ⟨_, List.mem_singleton.mp hn ▸ listed⟩

/-! ## The whole copy -/

theorem node?_of_location {d : Directory} (found : d.location fs = .ok source) : fs.node? source = some .directory := by
  unfold Directory.location at found
  split at found
  · simp at found
  · simp at found
  · split at found
    · next l _ directory =>
      obtain rfl := Except.ok.inj found
      exact directory
    · simp at found

theorem Rooted.begin (proper : target.Proper) (sound : fs.Sound) :
    Rooted source target fs (fs.makeDirectories target.path).2 where
  aside := (Aside.refl target fs).makeDirectories sound proper (List.prefix_refl _)
  stems := by
    intro l nothing new
    obtain ⟨k, before, leads⟩ := FileSystem.leads_of_makeDirectories proper nothing new
    exact ⟨k, leads, .inl before⟩

/-- **Where the entries come from.** Whatever comes of a copy, either nothing has changed or every new entry is where
the path of the output leads, or one above it, or one below it with the names of something that the walk meets by
then; and the walk has met that before anything was copied if it is separate from the output. What it meets is always
finite. -/
theorem Directory.copyRecords_stems (d : Directory) (output : Path) (sound : fs.Sound) :
    let fs' := (d.copyRecords output fs).2
    fs' = fs ∨
      ∃ source target, d.location fs = .ok source ∧ outputLocation fs output = .ok target ∧
        (∀ l, fs.node? l = none → fs'.node? l ≠ none → Stems fs fs' source target l) ∧
          {r | ∃ e, Meets fs' source r e}.Finite := by
  unfold copyRecords
  cases found : d.location fs with
  | error e => exact .inl rfl
  | ok source =>
    dsimp only
    cases output' : outputLocation fs output with
    | error e => exact .inl rfl
    | ok target =>
      dsimp only
      split
      · exact .inl rfl
      next outside =>
      have ne : source ≠ [] := by
        rintro rfl
        simp at outside
      have proper := proper_outputLocation sound output'
      have proper' : source.Proper := sound.names _ _ (node?_of_location found)
      have begun : Rooted source target fs (fs.makeDirectories target.path).2 := Rooted.begin proper sound
      have sound' := sound.makeDirectories target.path
      refine .inr ⟨source, target, rfl, rfl, ?_, finite_meets _ _⟩
      split
      · next e fs' failed =>
        rw [failed] at begun
        exact begun.stems
      · next fs' done =>
        rw [done] at begun sound'
        have stands := Stands.begin sound' ne proper' proper
        obtain ⟨-, -, rooted⟩ := copyEntries_keeps (fun _ _ _ sound rooted => rooted.makes proper sound)
          (fun _ _ sound rooted => rooted.copies proper sound) _ _ _ _ _ _ _ 0 stands begun
        exact rooted.stems

theorem detached_of_noLinks (noLinks : ∀ l n, fs.node? l = some n → ¬ n.IsLink) (outside : Off target source) :
    Detached fs source target where
  outside := outside
  noLinks := fun l n _ => noLinks l n
  links := fun _ _ _ to' _ node => absurd ⟨to', rfl⟩ (noLinks _ _ node)

/-- A new output beside the source: what is created there the walk has met in the source. -/
theorem copyRecords_stems_besides :
    let d : Directory := ⟨⟨"records", ⟨[0x2f, 0x69, 0x6e]⟩, none⟩, by decide⟩
    let fs' := (d.copyRecords ⟨[0x2f, 0x6e]⟩ besides).2
    besides.node? [[0x6e], [0x61]] = none ∧ fs'.node? [[0x6e], [0x61]] = some (.file [1]) ∧
      ∃ k : Location, fs'.Leads k.path [[0x6e], [0x61]] ∧
        (k <+: [[0x6e]] ∨ ∃ r e, k = [0x6e] :: r ∧ Meets besides [[0x69, 0x6e]] r e) := by
  have there : (Directory.copyRecords ⟨⟨"records", ⟨[0x2f, 0x69, 0x6e]⟩, none⟩, by decide⟩ ⟨[0x2f, 0x6e]⟩
      besides).2.node? [[0x6e], [0x61]] = some (.file [1]) := by cbv
  intro d fs'
  change fs'.node? [[0x6e], [0x61]] = some (.file [1]) at there
  have nothing : besides.node? [[0x6e], [0x61]] = none := by cbv
  have found : d.location besides = .ok [[0x69, 0x6e]] := by cbv
  have output : outputLocation besides ⟨[0x2f, 0x6e]⟩ = .ok [[0x6e]] := by cbv
  have new : fs'.node? [[0x6e], [0x61]] ≠ none := by
    rw [there]
    simp
  have sound : besides.Sound := FileSystem.sound_of_entries (by decide) (by decide) (by decide)
  have detached : Detached besides [[0x69, 0x6e]] [[0x6e]] :=
    detached_of_noLinks besides_noLinks ⟨by decide, by decide⟩
  refine ⟨nothing, there, ?_⟩
  obtain same | ⟨source, target, found', output', stems, -⟩ := d.copyRecords_stems ⟨[0x2f, 0x6e]⟩ sound
  · rw [show fs' = besides from same, nothing] at there
    simp at there
  · obtain rfl := Except.ok.inj (found.symm.trans found')
    obtain rfl := Except.ok.inj (output.symm.trans output')
    obtain ⟨k, leads, up | ⟨r, e, spelled, -, before⟩⟩ := stems _ nothing new
    · exact ⟨k, leads, .inl up⟩
    · exact ⟨k, leads, .inr ⟨r, e, spelled, before detached.separate⟩⟩

/-- The directory `s` with a directory `a`, in which the link `l` leads to the empty directory `o`. -/
def looped : FileSystem where
  entries := [
    ([[0x73]], .directory),
    ([[0x73], [0x61]], .directory),
    ([[0x73], [0x61], [0x6c]], .link ⟨[0x2f, 0x6f]⟩),
    ([[0x6f]], .directory)]
  workingDirectory := []

theorem looped_sound : looped.Sound := FileSystem.sound_of_entries (by decide) (by decide) (by decide)

theorem looped_not_meets (e : Entry) : ¬ Meets looped [[0x73]] [[0x61], [0x6c], [0x61]] e := by
  rintro ⟨above, place, listed, -⟩
  obtain ⟨here, visits, inside, -⟩ := Listed.of_concat (r := [[0x61], [0x6c]]) listed
  obtain ⟨above', here', visits', -, entry, -⟩ := Visits.of_concat (r := [[0x61]]) visits
  obtain ⟨above'', here'', visits'', -, entry', rfl⟩ := Visits.of_concat (r := []) visits'
  obtain ⟨rfl, rfl⟩ := visits''.of_nil
  have first : entryAt looped [[[0x73]]] [[0x73], [0x61]] (Location.path [[0x73], [0x61]]) =
      .ok (.directory [[0x73], [0x61]]) := by cbv
  obtain rfl : [[0x73], [0x61]] = here' := by simpa using first.symm.trans entry'
  have second : entryAt looped [[[0x73], [0x61]], [[0x73]]] [[0x73], [0x61], [0x6c]]
      (Location.path [[0x73], [0x61], [0x6c]]) = .ok (.directory [[0x6f]]) := by cbv
  obtain rfl : [[0x6f]] = here := by simpa using second.symm.trans entry
  have nothing : looped.list [[0x6f]] = [] := by cbv
  simp [nothing] at inside

/-- **A link to the output makes a copy of the copy**: what was created below the output is met in turn. -/
theorem copyRecords_copies_itself :
    let d : Directory := ⟨⟨"records", ⟨[0x2f, 0x73]⟩, none⟩, by decide⟩
    let o := d.copyRecords ⟨[0x2f, 0x6f]⟩ looped
    d.location looped = .ok [[0x73]] ∧ outputLocation looped ⟨[0x2f, 0x6f]⟩ = .ok [[0x6f]] ∧
      looped.node? [[0x6f], [0x61], [0x6c], [0x61]] = none ∧
        o.2.node? [[0x6f], [0x61], [0x6c], [0x61]] = some .directory ∧
          ∀ e, ¬ Meets looped [[0x73]] [[0x61], [0x6c], [0x61]] e := by
  intro d o
  have found : d.location looped = .ok [[0x73]] := by cbv
  have output : outputLocation looped ⟨[0x2f, 0x6f]⟩ = .ok [[0x6f]] := by cbv
  refine ⟨found, output, by cbv, ?_, looped_not_meets⟩
  have made : looped.makeDirectories (Location.path [[0x6f]]) = (.ok (), looped) := by cbv
  have run : o.2 = (copyBelow [[0x73]] [[0x6f]] looped).2 := by
    simp only [o, Directory.copyRecords, found, output, made]
    rfl
  rw [run, copyBelow]
  -- One directory after the other, and the rest of the walk takes nothing away.
  have names : looped.list [[0x73]] = [[0x61]] := by cbv
  have stands := Stands.begin looped_sound (by simp) (looped_sound.names [[0x73]] .directory (by cbv))
    (looped_sound.names [[0x6f]] .directory (by cbv))
  rw [names] at stands ⊢
  let fs₁ : FileSystem := ⟨looped.entries ++ [([[0x6f], [0x61]], .directory)], []⟩
  have names₁ : fs₁.list [[0x73], [0x61]] = [[0x6c]] := by cbv
  have entry₁ : entryAt looped [[[0x73]]] ([[0x73]] ++ [[0x61]]) ((Location.path [[0x73]]).child [0x61]) =
      .ok (.directory [[0x73], [0x61]]) := by cbv
  have made₁ : looped.makeDirectories ((Location.path [[0x6f]]).child [0x61]) = (.ok (), fs₁) := by cbv
  obtain ⟨stands, grown₁⟩ := stands.descends 0 entry₁ made₁ (by decide)
  rw [names₁] at stands grown₁
  let fs₂ : FileSystem := ⟨fs₁.entries ++ [([[0x6f], [0x61], [0x6c]], .directory)], []⟩
  have names₂ : fs₂.list [[0x6f]] = [[0x61]] := by cbv
  have entry₂ : entryAt fs₁ [[[0x73], [0x61]], [[0x73]]] ([[0x73], [0x61]] ++ [[0x6c]])
      (((Location.path [[0x73]]).child [0x61]).child [0x6c]) = .ok (.directory [[0x6f]]) := by cbv
  have made₂ : fs₁.makeDirectories (((Location.path [[0x6f]]).child [0x61]).child [0x6c]) = (.ok (), fs₂) := by cbv
  obtain ⟨stands, grown₂⟩ := stands.descends 0 entry₂ made₂ (by decide)
  rw [names₂] at stands grown₂
  let fs₃ : FileSystem := ⟨fs₂.entries ++ [([[0x6f], [0x61], [0x6c], [0x61]], .directory)], []⟩
  have entry₃ : entryAt fs₂ [[[0x6f]], [[0x73], [0x61]], [[0x73]]] ([[0x6f]] ++ [[0x61]])
      ((((Location.path [[0x73]]).child [0x61]).child [0x6c]).child [0x61]) = .ok (.directory [[0x6f], [0x61]]) := by cbv
  have made₃ : fs₂.makeDirectories ((((Location.path [[0x6f]]).child [0x61]).child [0x6c]).child [0x61]) =
      (.ok (), fs₃) := by cbv
  obtain ⟨stands, grown₃⟩ := stands.descends 0 entry₃ made₃ (by decide)
  have grown := (extended_copyEntries 0 stands).1.toGrown
  exact (((grown.trans grown₃).trans grown₂).trans grown₁).directory (by cbv)

end Records

end ModelDepot