import ModelDepot.Proofs.Records.Source
import ModelDepot.Proofs.Files.Beginnings

/-! # The walk through a directory

What the walk of a directory comes to, links followed, at some moment: the directories that it goes into, and the
entries that it meets there. When the file system grows, it still comes to all of that. Copying a directory does
nothing but make the directories and copy the records that the walk meets while it goes on.
-/

namespace ModelDepot

open Files (FileSystem Location Name Node Path Segment maxPath)
open Files.FileSystem (Extended Grown)

namespace Records

variable {fs fs' : FileSystem} {source target place here there : Location} {above : List Location} {r q : List Name}
  {name : Name} {p : Path} {e : Entry}

/-! ## What the walk comes to -/

/-- The walk goes into a directory: names lead there from the source, and the directories on the way are given, the
last first. -/
inductive Visits (fs : FileSystem) (source : Location) : List Name → List Location → Location → Prop where
  | start : Visits fs source [] [source] source
  | into {r : List Name} {above : List Location} {here : Location} {name : Name} {there : Location}
      (visits : Visits fs source r above here) (listed : name ∈ fs.list here)
      (entry : entryAt fs above (here ++ [name]) (Location.path (source ++ (r ++ [name]))) = .ok (.directory there))
      (fits : (Location.path (source ++ (r ++ [name]))).bytes.length ≤ maxPath) :
      Visits fs source (r ++ [name]) (there :: above) there

/-- A name is listed in a directory that the walk goes into. -/
inductive Listed (fs : FileSystem) (source : Location) : List Name → List Location → Location → Prop where
  | mk {r : List Name} {above : List Location} {here : Location} {name : Name}
      (visits : Visits fs source r above here) (listed : name ∈ fs.list here) :
      Listed fs source (r ++ [name]) above (here ++ [name])

/-- The walk meets an entry at the end of some names. -/
def Meets (fs : FileSystem) (source : Location) (r : List Name) (e : Entry) : Prop :=
  ∃ above place, Listed fs source r above place ∧ entryAt fs above place (Location.path (source ++ r)) = .ok e

theorem Listed.node? (listed : Listed fs source r above place) : ∃ n, fs.node? place = some n := by
  cases listed with
  | mk _ listed => exact FileSystem.node?_of_mem_list listed

theorem Meets.ne_nil (meets : Meets fs source r e) : r ≠ [] := by
  obtain ⟨-, -, ⟨-, -⟩, -⟩ := meets
  simp

theorem Visits.of_nil (visits : Visits fs source [] above here) : above = [source] ∧ here = source := by
  generalize whole : ([] : List Name) = r at visits
  cases visits with
  | start => exact ⟨rfl, rfl⟩
  | into => simp at whole

theorem Visits.of_concat (visits : Visits fs source (r ++ [name]) above there) :
    ∃ above' here, Visits fs source r above' here ∧ name ∈ fs.list here ∧
      entryAt fs above' (here ++ [name]) (Location.path (source ++ (r ++ [name]))) = .ok (.directory there) ∧
        above = there :: above' := by
  generalize whole : r ++ [name] = q at visits
  cases visits with
  | start => simp at whole
  | into visits listed entry fits =>
    obtain ⟨rfl, last⟩ := List.append_inj' whole rfl
    obtain rfl := List.singleton_inj.mp last
    exact ⟨_, _, visits, listed, entry, rfl⟩

theorem Listed.of_concat (listed : Listed fs source (r ++ [name]) above place) :
    ∃ here, Visits fs source r above here ∧ name ∈ fs.list here ∧ place = here ++ [name] := by
  generalize whole : r ++ [name] = q at listed
  cases listed with
  | mk visits listed =>
    obtain ⟨rfl, last⟩ := List.append_inj' whole rfl
    obtain rfl := List.singleton_inj.mp last
    exact ⟨_, visits, listed, rfl⟩

theorem directory_of_entryAt (entry : entryAt fs above place p = .ok (.directory there)) :
    there = place ∧ fs.node? place = some .directory ∨
      ∃ to', fs.node? place = some (.link to') ∧ fs.status p = .ok (there, .directory) := by
  unfold entryAt at entry
  split at entry
  · simp at entry
  · next node => exact .inl ⟨by simpa using entry.symm, node⟩
  · next to' node =>
    split at entry
    · simp at entry
    · next l found =>
      split at entry
      · simp at entry
      · obtain rfl : l = there := by simpa using entry
        exact .inr ⟨to', node, found⟩
    · simp at entry
    · simp at entry
  · simp at entry

theorem record_of_entryAt (entry : entryAt fs above place p = .ok .record) :
    (∃ bytes, fs.node? place = some (.file bytes)) ∨
      ∃ to' l bytes, fs.node? place = some (.link to') ∧ fs.status p = .ok (l, .file bytes) := by
  unfold entryAt at entry
  split at entry
  · next bytes node => exact .inl ⟨bytes, node⟩
  · simp at entry
  · next to' node =>
    split at entry
    · simp at entry
    · split at entry <;> simp at entry
    · next l bytes found => exact .inr ⟨to', l, bytes, node, found⟩
    · simp at entry
  · simp at entry

theorem Visits.meets (visits : Visits fs source r above here) (before : q <+: r) (ne : q ≠ []) :
    ∃ e, Meets fs source q e := by
  induction visits with
  | start => exact absurd (List.prefix_nil.mp before) ne
  | into visits listed entry fits ih =>
    rcases List.prefix_concat_iff.mp before with rfl | before
    · exact ⟨_, _, _, .mk visits listed, entry⟩
    · exact ih before

theorem Meets.front (meets : Meets fs source r e) (before : q <+: r) (ne : q ≠ []) : ∃ e', Meets fs source q e' := by
  obtain ⟨above, place, listed, entry⟩ := meets
  cases listed with
  | mk visits listed =>
    rcases List.prefix_concat_iff.mp before with rfl | before
    · exact ⟨e, _, _, .mk visits listed, entry⟩
    · exact visits.meets before ne

theorem Visits.proper (visits : Visits fs source r above here) (sound : fs.Sound) : Location.Proper r := by
  induction visits with
  | start => simp [Location.Proper]
  | into visits listed entry fits ih => exact ih.concat (sound.segments_of_list _ listed)

theorem Meets.proper (meets : Meets fs source r e) (sound : fs.Sound) : Location.Proper r := by
  obtain ⟨above, place, listed, -⟩ := meets
  cases listed with
  | mk visits listed => exact (visits.proper sound).concat (sound.segments_of_list _ listed)

theorem Meets.through (meets : Meets fs source q e) (before : r ++ [name] <+: q) :
    ∃ above here, Visits fs source r above here ∧ name ∈ fs.list here := by
  obtain ⟨e', above, place, listed, -⟩ := meets.front before (by simp)
  obtain ⟨here, visits, inside, -⟩ := listed.of_concat
  exact ⟨above, here, visits, inside⟩

theorem Meets.directory (meets : Meets fs source q e) (ne : r ≠ []) (before : r ++ [name] <+: q) :
    ∃ there, Meets fs source r (.directory there) ∧ name ∈ fs.list there := by
  obtain ⟨above, there, visits, inside⟩ := meets.through before
  obtain ⟨front, last, rfl⟩ := (List.eq_nil_or_concat r).resolve_left ne
  rw [List.concat_eq_append] at visits ⊢
  obtain ⟨above', here, visits', listed, entry, rfl⟩ := visits.of_concat
  exact ⟨there, ⟨above', _, .mk visits' listed, entry⟩, inside⟩

theorem Visits.unique {above' : List Location} {here' : Location} (visits : Visits fs source r above here)
    (visits' : Visits fs source r above' here') : above' = above ∧ here' = here := by
  induction visits generalizing above' here' with
  | start => exact visits'.of_nil
  | into visits listed entry fits ih =>
    obtain ⟨above₁, here₁, visits₁, -, entry', rfl⟩ := visits'.of_concat
    obtain ⟨rfl, rfl⟩ := ih visits₁
    obtain rfl := Entry.directory.inj (Except.ok.inj (entry.symm.trans entry'))
    exact ⟨rfl, rfl⟩

theorem Listed.unique {above' : List Location} {place' : Location} (listed : Listed fs source r above place)
    (listed' : Listed fs source r above' place') : above' = above ∧ place' = place := by
  cases listed with
  | mk visits inside =>
    obtain ⟨here₁, visits₁, -, rfl⟩ := listed'.of_concat
    obtain ⟨rfl, rfl⟩ := visits.unique visits₁
    exact ⟨rfl, rfl⟩

theorem Meets.unique {e' : Entry} (meets : Meets fs source r e) (meets' : Meets fs source r e') : e' = e := by
  obtain ⟨above, place, listed, entry⟩ := meets
  obtain ⟨above', place', listed', entry'⟩ := meets'
  obtain ⟨rfl, rfl⟩ := listed.unique listed'
  exact Except.ok.inj (entry'.symm.trans entry)

theorem Meets.leaf {e' : Entry} (meets : Meets fs source r e) (leaf : ∀ there, e ≠ .directory there) (below : r <+: q)
    (meets' : Meets fs source q e') : q = r := by
  obtain ⟨more, rfl⟩ := below
  cases more with
  | nil => exact List.append_nil r
  | cons name rest =>
    have before : r ++ [name] <+: r ++ name :: rest := ⟨rest, by simp⟩
    obtain ⟨there, met, -⟩ := meets'.directory meets.ne_nil before
    exact absurd (met.unique meets) (leaf there)

/-! ## When the file system grows -/

theorem entryAt_of_like {n n' : Node} (node : fs.node? place = some n) (node' : fs'.node? place = some n')
    (like : n.Like n')
    (status : n.IsLink → ∀ l m, fs.status p = .ok (l, m) → ∃ m', fs'.status p = .ok (l, m') ∧ m.Like m')
    (entry : entryAt fs above place p = .ok e) : entryAt fs' above place p = .ok e := by
  unfold entryAt at entry ⊢
  rw [node] at entry
  rw [node']
  cases n with
  | file bytes => cases n' <;> simp_all [Node.Like]
  | directory => rwa [like.eq_of_directory]
  | other => cases n' <;> simp_all [Node.Like]
  | link target =>
    rw [like.eq_of_link]
    simp only at entry ⊢
    cases found : fs.status p with
    | error e => simp [found] at entry
    | ok at' =>
      obtain ⟨l, m⟩ := at'
      obtain ⟨m', found', like'⟩ := status ⟨target, rfl⟩ l m found
      rw [found] at entry
      rw [found']
      cases m <;> cases m' <;> simp_all [Node.Like]

theorem entryAt_grown (grown : Grown fs fs') (there : ∃ n, fs.node? place = some n)
    (entry : entryAt fs above place p = .ok e) : entryAt fs' above place p = .ok e := by
  obtain ⟨n, node⟩ := there
  obtain ⟨n', node', like⟩ := grown.node _ _ node
  exact entryAt_of_like node node' like (fun _ _ _ found => FileSystem.status_grown grown found) entry

theorem mem_list_grown (grown : Grown fs fs') (listed : name ∈ fs.list here) : name ∈ fs'.list here := by
  obtain ⟨n, node⟩ := FileSystem.node?_of_mem_list listed
  obtain ⟨n', node', -⟩ := grown.node _ _ node
  exact FileSystem.mem_list_of_node? node'

theorem Visits.grown (visits : Visits fs source r above here) (grown : Grown fs fs') : Visits fs' source r above here := by
  induction visits with
  | start => exact .start
  | into visits listed entry fits ih =>
    exact .into ih (mem_list_grown grown listed) (entryAt_grown grown (FileSystem.node?_of_mem_list listed) entry) fits

theorem Listed.grown (listed : Listed fs source r above place) (grown : Grown fs fs') : Listed fs' source r above place := by
  cases listed with
  | mk visits listed => exact .mk (visits.grown grown) (mem_list_grown grown listed)

theorem Meets.grown (meets : Meets fs source r e) (grown : Grown fs fs') : Meets fs' source r e := by
  obtain ⟨above, place, listed, entry⟩ := meets
  exact ⟨above, place, listed.grown grown, entryAt_grown grown listed.node? entry⟩

/-! ## What is copied -/

theorem extended_copyRecord (origin into : Path) (fs : FileSystem) : Extended fs (copyRecord origin into fs).2 :=
  copyRecord_keeps origin into (FileSystem.furnished_makeDirectories fs _).extended
    fun _ _ extended copied => extended.trans (FileSystem.extended_copy copied)

theorem sound_copyRecord (origin into : Path) (sound : fs.Sound) : (copyRecord origin into fs).2.Sound :=
  copyRecord_keeps origin into (sound.makeDirectories _) fun _ _ sound copied => sound.copy copied

theorem length_path_concat (ne : here ≠ []) :
    (Location.path (here ++ [name])).bytes.length = (Location.path here).bytes.length + (name.length + 1) := by
  simp only [Location.path, Files.joinSlashes_concat ne, List.length_cons, List.length_append]
  omega

/-- Where copying stands: some of the names in a directory are still to be copied, and the walk goes into that
directory. -/
structure Stands (fs : FileSystem) (source target : Location) (r : List Name) (room : Nat) (above : List Location)
    (here : Location) (origin into : Path) (names : List Name) : Prop where
  sound : fs.Sound
  ne_nil : source ≠ []
  proper : source.Proper
  proper' : target.Proper
  visits : Visits fs source r above here
  spelled : origin = Location.path (source ++ r)
  spelled' : into = Location.path (target ++ r)
  left : room = maxPath - origin.bytes.length
  listed : ∀ n ∈ names, n ∈ fs.list here

namespace Stands

variable {room : Nat} {origin into : Path} {n : Name} {rest : List Name}

theorem begin (sound : fs.Sound) (ne_nil : source ≠ []) (proper : source.Proper) (proper' : target.Proper) :
    Stands fs source target [] (maxPath - source.path.bytes.length) [source] source source.path target.path
      (fs.list source) where
  sound := sound
  ne_nil := ne_nil
  proper := proper
  proper' := proper'
  visits := .start
  spelled := by rw [List.append_nil]
  spelled' := by rw [List.append_nil]
  left := rfl
  listed := fun _ => id

theorem child_path (stands : Stands fs source target r room above here origin into (n :: rest)) {l : Location}
    (proper : l.Proper) : (Location.path (l ++ r)).child n = Location.path (l ++ (r ++ [n])) := by
  have segment := stands.sound.segments_of_list n (stands.listed n (by simp))
  have names := stands.visits.proper stands.sound
  rw [Location.child_path (proper.append names) segment, List.append_assoc]

theorem child_origin (stands : Stands fs source target r room above here origin into (n :: rest)) :
    origin.child n = Location.path (source ++ (r ++ [n])) := stands.spelled ▸ stands.child_path stands.proper

theorem child_into (stands : Stands fs source target r room above here origin into (n :: rest)) :
    into.child n = Location.path (target ++ (r ++ [n])) := stands.spelled' ▸ stands.child_path stands.proper'

theorem meets (stands : Stands fs source target r room above here origin into (n :: rest))
    (entry : entryAt fs above (here ++ [n]) (origin.child n) = .ok e) : Meets fs source (r ++ [n]) e := by
  rw [stands.child_origin] at entry
  exact ⟨above, _, .mk stands.visits (stands.listed n (by simp)), entry⟩

theorem next (stands : Stands fs source target r room above here origin into (n :: rest)) (extended : Extended fs fs')
    (sound : fs'.Sound) : Stands fs' source target r room above here origin into rest :=
  { stands with
    sound := sound
    visits := stands.visits.grown extended.toGrown
    listed := fun m hm => mem_list_grown extended.toGrown (stands.listed m (by simp [hm])) }

theorem down (stands : Stands fs source target r room above here origin into (n :: rest))
    (entry : entryAt fs above (here ++ [n]) (origin.child n) = .ok (.directory there)) (extended : Extended fs fs')
    (sound : fs'.Sound) (fits : n.length + 1 ≤ room) :
    Stands fs' source target (r ++ [n]) (room - (n.length + 1)) (there :: above) there (origin.child n) (into.child n)
      (fs'.list there) := by
  have length : (origin.child n).bytes.length = origin.bytes.length + (n.length + 1) := by
    rw [stands.child_origin, ← List.append_assoc, length_path_concat (by simp [stands.ne_nil]), stands.spelled]
  have left := stands.left
  have short : (Location.path (source ++ (r ++ [n]))).bytes.length ≤ maxPath := by
    rw [← stands.child_origin]
    omega
  have entry' := entry
  rw [stands.child_origin] at entry'
  exact
    { sound := sound
      ne_nil := stands.ne_nil
      proper := stands.proper
      proper' := stands.proper'
      visits := Visits.grown (.into stands.visits (stands.listed n (by simp)) entry' short) extended.toGrown
      spelled := stands.child_origin
      spelled' := stands.child_into
      left := by omega
      listed := fun _ => id }

end Stands

/-- **What copying keeps**: whatever making a directory that the walk meets keeps, and copying a record that it
meets, at any moment on the way. -/
theorem copyEntries_keeps {I : FileSystem → Prop}
    (makes : ∀ fs r there, fs.Sound → I fs → Meets fs source r (.directory there) →
      I (fs.makeDirectories (Location.path (target ++ r))).2)
    (copies : ∀ fs r, fs.Sound → I fs → Meets fs source r .record →
      I (copyRecord (Location.path (source ++ r)) (Location.path (target ++ r)) fs).2)
    (r : List Name) (room : Nat) (above : List Location) (here : Location) (origin into : Path) (names : List Name)
    (copied : Nat) (stands : Stands fs source target r room above here origin into names) (keeps : I fs) :
    let fs' := (copyEntries room above here origin into names copied fs).2
    Extended fs fs' ∧ fs'.Sound ∧ I fs' := by
  have record : ∀ {fs r room above here origin into n rest},
      Stands fs source target r room above here origin into (n :: rest) → I fs →
      entryAt fs above (here ++ [n]) (origin.child n) = .ok .record →
        let fs' := (copyRecord (origin.child n) (into.child n) fs).2
        Extended fs fs' ∧ fs'.Sound ∧ I fs' := by
    intro fs r room above here origin into n rest stands keeps entry
    have step := copies fs _ stands.sound keeps (stands.meets entry)
    rw [← stands.child_origin, ← stands.child_into] at step
    exact ⟨extended_copyRecord _ _ fs, sound_copyRecord _ _ stands.sound, step⟩
  have directory : ∀ {fs r room above here origin into n rest there},
      Stands fs source target r room above here origin into (n :: rest) → I fs →
      entryAt fs above (here ++ [n]) (origin.child n) = .ok (.directory there) →
        let fs' := (fs.makeDirectories (into.child n)).2
        Extended fs fs' ∧ fs'.Sound ∧ I fs' := by
    intro fs r room above here origin into n rest there stands keeps entry
    have step := makes fs _ there stands.sound keeps (stands.meets entry)
    rw [← stands.child_into] at step
    exact ⟨(FileSystem.furnished_makeDirectories fs _).extended, stands.sound.makeDirectories _, step⟩
  fun_induction copyEntries room above here origin into names copied fs generalizing r with
  | case1 => exact ⟨.refl _, stands.sound, keeps⟩
  | case2 => exact ⟨.refl _, stands.sound, keeps⟩
  | case3 _ _ _ _ _ _ fs _ _ _ _ ih => exact ih r (stands.next (.refl fs) stands.sound) keeps
  | case4 _ _ _ _ _ _ fs n _ origin into entry e fs' failed =>
    have step := record stands keeps entry
    rwa [show copyRecord _ _ fs = _ from failed] at step
  | case5 _ _ _ _ _ _ fs n _ origin into entry fs' done ih =>
    have step := record stands keeps entry
    rw [show copyRecord _ _ fs = _ from done] at step
    obtain ⟨extended, sound, keeps⟩ := step
    obtain ⟨extended', sound', keeps⟩ := ih r (stands.next extended sound) keeps
    exact ⟨extended.trans extended', sound', keeps⟩
  | case6 _ _ _ _ _ _ fs n _ origin into there entry e fs' failed =>
    have step := directory stands keeps entry
    rwa [show fs.makeDirectories _ = _ from failed] at step
  | case7 _ _ _ _ _ _ fs n _ origin into there entry fs' done fits e fs'' failed ih =>
    have step := directory stands keeps entry
    rw [show fs.makeDirectories _ = _ from done] at step
    obtain ⟨extended, sound, keeps⟩ := step
    have inner := ih _ (stands.down entry extended sound fits) keeps
    rw [failed] at inner
    exact ⟨extended.trans inner.1, inner.2⟩
  | case8 _ _ _ _ _ _ fs n _ origin into there entry fs' done fits copied' fs'' finished ih ih' =>
    have step := directory stands keeps entry
    rw [show fs.makeDirectories _ = _ from done] at step
    obtain ⟨extended, sound, keeps⟩ := step
    have inner := ih _ (stands.down entry extended sound fits) keeps
    rw [finished] at inner
    obtain ⟨extended', sound', keeps⟩ := inner
    have both := extended.trans extended'
    obtain ⟨extended'', sound'', keeps⟩ := ih' r (stands.next both sound') keeps
    exact ⟨both.trans extended'', sound'', keeps⟩
  | case9 _ _ _ _ _ _ fs n _ origin into there entry fs' done =>
    have step := directory stands keeps entry
    rwa [show fs.makeDirectories _ = _ from done] at step

theorem extended_copyEntries {room : Nat} {origin into : Path} {names : List Name} (copied : Nat)
    (stands : Stands fs source target r room above here origin into names) :
    Extended fs (copyEntries room above here origin into names copied fs).2 ∧
      (copyEntries room above here origin into names copied fs).2.Sound := by
  have kept := copyEntries_keeps (I := fun _ => True) (fun _ _ _ _ _ _ => trivial) (fun _ _ _ _ _ => trivial) r room
    above here origin into names copied stands trivial
  exact ⟨kept.1, kept.2.1⟩

theorem Stands.descends {room : Nat} {origin into : Path} {n : Name} {rest : List Name} (copied : Nat)
    (stands : Stands fs source target r room above here origin into (n :: rest))
    (entry : entryAt fs above (here ++ [n]) (origin.child n) = .ok (.directory there))
    (made : fs.makeDirectories (into.child n) = (.ok (), fs')) (fits : n.length + 1 ≤ room) :
    Stands fs' source target (r ++ [n]) (room - (n.length + 1)) (there :: above) there (origin.child n) (into.child n)
        (fs'.list there) ∧
      Grown (copyEntries (room - (n.length + 1)) (there :: above) there (origin.child n) (into.child n) (fs'.list there)
        copied fs').2 (copyEntries room above here origin into (n :: rest) copied fs).2 := by
  have extended := (FileSystem.furnished_makeDirectories fs (into.child n)).extended
  have sound := stands.sound.makeDirectories (into.child n)
  rw [made] at extended sound
  have down := stands.down entry extended sound fits
  refine ⟨down, ?_⟩
  obtain ⟨inner, inner'⟩ := extended_copyEntries copied down
  rw [copyEntries.eq_def room]
  simp only [entry, made, if_pos fits]
  split
  · next failed =>
    rw [failed]
    exact .refl _
  · next copied' fs'' finished =>
    rw [finished] at inner inner' ⊢
    exact (extended_copyEntries copied' (stands.next (extended.trans inner) inner')).1.toGrown

end Records

end ModelDepot
