import Mathlib.Data.List.Induction
import Mathlib.Data.List.Nodup
import ModelDepot.Proofs.Files.Below

/-! # File systems as trees

In a sound file system everything is in a directory and has a name that can be one. Requests keep it so, and
none of the requests here adds a link.
-/

namespace ModelDepot

namespace Files

theorem noSlash_of_mem_splitSlashes {bytes piece : List UInt8} (mem : piece ∈ splitSlashes bytes) : slash ∉ piece := by
  induction bytes generalizing piece with
  | nil =>
    rw [splitSlashes, List.mem_singleton] at mem
    simp [mem]
  | cons b rest ih =>
    obtain ⟨p, ps, hp⟩ := List.exists_cons_of_ne_nil (splitSlashes_ne_nil rest)
    rw [splitSlashes, hp] at mem
    rw [hp] at ih
    by_cases first : b = slash
    · rw [if_pos first] at mem
      obtain rfl | mem := List.mem_cons.mp mem
      · simp
      · exact ih mem
    · rw [if_neg first] at mem
      obtain rfl | mem := List.mem_cons.mp mem
      · have := ih (List.mem_cons_self (a := p) (l := ps))
        simp [Ne.symm first, this]
      · exact ih (List.mem_cons_of_mem p mem)

namespace FileSystem

variable {fs fs' fs'' : FileSystem} {l : Location} {n : Node} {p : Path}

/-- Every name can be one, and everything is in a directory. -/
structure Sound (fs : FileSystem) : Prop where
  names : ∀ l n, fs.node? l = some n → ∀ name ∈ l, Segment name
  working : ∀ name ∈ fs.workingDirectory, Segment name
  parents : ∀ l name n, fs.node? (l ++ [name]) = some n → fs.node? l = some .directory

theorem mem_entries_of_node? (ne : l ≠ []) (node : fs.node? l = some n) : (l, n) ∈ fs.entries := by
  rw [node?, if_neg ne] at node
  obtain ⟨before, after, split, -⟩ := List.lookup_eq_some_iff.mp node
  simp [split]

theorem node?_of_mem_entries {e : Location × Node} (mem : e ∈ fs.entries) : ∃ n, fs.node? e.1 = some n := by
  by_cases root : e.1 = []
  · exact ⟨.directory, if_pos root⟩
  rw [node?, if_neg root]
  cases found : fs.entries.lookup e.1 with
  | some n => exact ⟨n, rfl⟩
  | none => simpa using List.lookup_eq_none_iff.mp found e mem

theorem node?_of_mem_list {name : Name} (mem : name ∈ fs.list l) : ∃ n, fs.node? (l ++ [name]) = some n := by
  obtain ⟨e, he, listed⟩ := List.mem_filterMap.mp (List.mem_mergeSort.mp mem)
  split at listed
  · next here =>
    obtain ⟨n, node⟩ := node?_of_mem_entries he
    obtain ⟨ys, same⟩ := List.getLast?_eq_some_iff.mp listed
    rw [same, List.dropLast_concat] at here
    exact ⟨n, by rwa [same, here] at node⟩
  · simp at listed

theorem mem_list_of_node? {name : Name} (node : fs.node? (l ++ [name]) = some n) : name ∈ fs.list l := by
  have mem := mem_entries_of_node? (by simp) node
  refine List.mem_mergeSort.mpr (List.mem_filterMap.mpr ⟨_, mem, ?_⟩)
  simp

theorem Sound.segments_of_list (sound : fs.Sound) : ∀ name ∈ fs.list l, Segment name := by
  intro name mem
  obtain ⟨n, node⟩ := node?_of_mem_list mem
  exact sound.names _ n node name (by simp)

theorem Sound.above (sound : fs.Sound) {more : List Name} (ne : more ≠ []) (node : fs.node? (l ++ more) = some n) :
    fs.node? l = some .directory := by
  induction more using List.reverseRecOn generalizing n with
  | nil => exact absurd rfl ne
  | append_singleton more name ih =>
    have parent := sound.parents (l ++ more) name n (by simpa using node)
    by_cases last : more = []
    · simpa [last] using parent
    · exact ih last parent

theorem eq_directory_or_mem (node : fs.node? l = some n) : n = .directory ∨ (l, n) ∈ fs.entries := by
  by_cases root : l = []
  · rw [node?, if_pos root, Option.some.injEq] at node
    exact .inl node.symm
  · exact .inr (mem_entries_of_node? root node)

theorem sound_of_entries (names : ∀ e ∈ fs.entries, ∀ name ∈ e.1, Segment name)
    (working : ∀ name ∈ fs.workingDirectory, Segment name)
    (parents : ∀ e ∈ fs.entries, fs.node? e.1.dropLast = some .directory) : fs.Sound where
  names := by
    intro l n node
    by_cases root : l = []
    · simp [root]
    · exact names _ (mem_entries_of_node? root node)
  working := working
  parents := by
    intro l name n node
    have := parents _ (mem_entries_of_node? (by simp) node)
    rwa [List.dropLast_concat] at this

/-! ## Where paths lead -/

theorem free_of_follow (last : Bool) {links : Nat} {here : Location} {names : List Name}
    (pieces : ∀ name ∈ names, slash ∉ name) (free : fs.follow last links here names = .ok (.free l)) :
    ∃ above name, l = above ++ [name] ∧ Segment name ∧ fs.node? above = some .directory := by
  fun_induction FileSystem.follow fs last links here names with
  | case7 links here name directory idle up long there nothing =>
    obtain rfl : there = l := by simpa using free
    have notIdle : name ≠ [] ∧ name ≠ dot := not_or.mp idle
    exact ⟨here, name, rfl, ⟨notIdle.1, notIdle.2, up, pieces name (by simp)⟩, Decidable.not_not.mp directory⟩
  | case4 _ _ _ _ _ _ ih => exact ih (fun m hm => pieces m (by simp [hm])) free
  | case5 _ _ _ _ _ ih => exact ih (fun m hm => pieces m (by simp [hm])) free
  | case11 _ _ _ _ _ _ _ _ _ _ _ _ ih =>
    refine ih (fun m hm => ?_) free
    obtain hm | hm := List.mem_append.mp hm
    · exact noSlash_of_mem_splitSlashes hm
    · exact pieces m (by simp [hm])
  | case12 _ _ _ _ _ _ _ _ _ _ _ _ ih => exact ih (fun m hm => pieces m (by simp [hm])) free
  | _ => simp at free

theorem free_of_locate (last : Bool) (free : fs.locate last p = .ok (.free l)) :
    ∃ above name, l = above ++ [name] ∧ Segment name ∧ fs.node? above = some .directory :=
  free_of_follow last (fun _ => noSlash_of_mem_splitSlashes) (follow_of_locate free).2.2

theorem locate_of_writeSpot {spot : Spot} (found : fs.writeSpot p = .ok spot) : fs.locate true p = .ok spot := by
  unfold writeSpot at found
  dsimp only at found
  split at found
  · split at found <;> simp at found
  · exact found

theorem holds_of_writeSpot {spot : Spot} (found : fs.writeSpot p = .ok spot) : fs.Holds spot :=
  holds_of_locate true (locate_of_writeSpot found)

theorem put_of_write {bytes : List UInt8} (written : fs.write p bytes = .ok fs') :
    (∃ spot, fs.writeSpot p = .ok spot ∧ spot.location ≠ [] ∧
        (fs.node? spot.location = none ∨ ∃ old, fs.node? spot.location = some (.file old)) ∧
          fs' = fs.put spot.location (.file bytes)) ∨
      ∃ l n, fs.writeSpot p = .ok (.found l n) ∧ (n = .other ∨ n.IsLink) ∧ fs' = fs := by
  rcases write_eq written with ⟨l, free | ⟨old, found⟩, rfl⟩ | nowhere
  · obtain ⟨ne, nothing⟩ := holds_of_writeSpot free
    exact .inl ⟨_, free, ne, .inl nothing, rfl⟩
  · have there : fs.node? l = some (.file old) := holds_of_writeSpot found
    refine .inl ⟨_, found, ?_, .inr ⟨old, there⟩, rfl⟩
    rintro rfl
    simp [node?] at there
  · exact .inr nowhere

theorem node?_of_canonical (found : fs.canonical p = .ok l) : ∃ n, fs.node? l = some n := by
  unfold canonical status at found
  split at found
  · next k n spot =>
    obtain rfl : k = l := Except.ok.inj found
    exact ⟨n, holds_of_locate _ spot⟩
  · simp [Except.map] at found
  · simp [Except.map] at found

/-! ## Requests keep a file system sound -/

theorem Sound.put_free (sound : fs.Sound) {above : Location} {name : Name} (segment : Segment name)
    (directory : fs.node? above = some .directory) (free : fs.node? (above ++ [name]) = none) (n : Node) :
    (fs.put (above ++ [name]) n).Sound where
  names := by
    intro k m node x hx
    rw [node?_put fs (by simp)] at node
    by_cases here : k = above ++ [name]
    · subst here
      obtain hx | hx := List.mem_append.mp hx
      · exact sound.names above _ directory x hx
      · exact List.mem_singleton.mp hx ▸ segment
    · exact sound.names k m ((if_neg here).symm.trans node) x hx
  working := sound.working
  parents := by
    intro k x m node
    rw [node?_put fs (by simp)] at node ⊢
    by_cases here : k ++ [x] = above ++ [name]
    · obtain ⟨rfl, -⟩ := List.append_inj' here rfl
      rw [if_neg (by simp)]
      exact directory
    · rw [if_neg here] at node
      have parent := sound.parents k x m node
      have other : k ≠ above ++ [name] := by
        intro same
        simp [same, free] at parent
      rw [if_neg other]
      exact parent

theorem Sound.put_file (sound : fs.Sound) (ne : l ≠ []) {old : List UInt8} (there : fs.node? l = some (.file old))
    (bytes : List UInt8) : (fs.put l (.file bytes)).Sound where
  names := by
    intro k m node x hx
    rw [node?_put fs ne] at node
    by_cases here : k = l
    · exact sound.names l _ there x (here ▸ hx)
    · exact sound.names k m ((if_neg here).symm.trans node) x hx
  working := sound.working
  parents := by
    intro k x m node
    rw [node?_put fs ne] at node ⊢
    have parent : fs.node? k = some .directory := by
      by_cases here : k ++ [x] = l
      · exact sound.parents k x _ (here ▸ there)
      · exact sound.parents k x m ((if_neg here).symm.trans node)
    have other : k ≠ l := by
      intro same
      simp [same, there] at parent
    rw [if_neg other]
    exact parent

theorem Sound.makeDirectory (sound : fs.Sound) (made : fs.makeDirectory p = .ok fs') : fs'.Sound := by
  unfold FileSystem.makeDirectory at made
  split at made
  · simp at made
  · next l found =>
    obtain ⟨above, name, rfl, segment, directory⟩ := free_of_locate _ found
    cases made
    exact sound.put_free segment directory (holds_of_locate _ found).2 _
  · simp at made

theorem Sound.write (sound : fs.Sound) {bytes : List UInt8} (written : fs.write p bytes = .ok fs') : fs'.Sound := by
  obtain ⟨l, free | ⟨old, found⟩, rfl⟩ | ⟨-, -, -, -, rfl⟩ := write_eq written
  · obtain ⟨above, name, rfl, segment, directory⟩ := free_of_locate _ (locate_of_writeSpot free)
    exact sound.put_free segment directory (holds_of_writeSpot free).2 _
  · have there : fs.node? l = some (.file old) := holds_of_writeSpot found
    have ne : l ≠ [] := by
      intro root
      simp [root, node?] at there
    exact sound.put_file ne there bytes
  · exact sound

/-! ## Every location once -/

/-- No location is given twice. -/
def Distinct (fs : FileSystem) : Prop := (fs.entries.map Prod.fst).Nodup

theorem Distinct.put (distinct : fs.Distinct) (l : Location) (n : Node) : (fs.put l n).Distinct := by
  unfold Distinct FileSystem.put
  dsimp only
  split
  · have same : (fs.entries.map fun e => if e.1 = l then (l, n) else e).map Prod.fst = fs.entries.map Prod.fst := by
      rw [List.map_map]
      refine List.map_congr_left fun e _ => ?_
      by_cases here : e.1 = l <;> simp [here]
    rwa [same]
  · next missing =>
    have nothing : fs.entries.lookup l = none := Option.not_isSome_iff_eq_none.mp missing
    rw [List.map_append, List.nodup_append]
    refine ⟨distinct, by simp, ?_⟩
    rintro k mem k' mem' rfl
    obtain ⟨e, he, rfl⟩ := List.mem_map.mp mem
    obtain rfl : e.1 = l := by simpa using mem'
    simpa using List.lookup_eq_none_iff.mp nothing e he

theorem Distinct.makeDirectory (distinct : fs.Distinct) (made : fs.makeDirectory p = .ok fs') : fs'.Distinct := by
  unfold FileSystem.makeDirectory at made
  split at made
  · simp at made
  · cases made
    exact distinct.put _ _
  · simp at made

theorem Distinct.makeLineage (distinct : fs.Distinct) (ps : List Path) : (fs.makeLineage ps).2.Distinct :=
  makeLineage_keeps ps (fun _ _ _ _ distinct made => distinct.makeDirectory made) distinct

theorem Distinct.makeDirectories (distinct : fs.Distinct) (p : Path) : (fs.makeDirectories p).2.Distinct :=
  distinct.makeLineage p.lineage

theorem Distinct.write (distinct : fs.Distinct) {bytes : List UInt8} (written : fs.write p bytes = .ok fs') :
    fs'.Distinct := by
  obtain ⟨l, -, rfl⟩ | ⟨-, -, -, -, rfl⟩ := write_eq written
  · exact distinct.put l _
  · exact distinct

theorem Distinct.copy (distinct : fs.Distinct) {source : Path} (copied : fs.copy source p = .ok fs') : fs'.Distinct :=
  copy_keeps copied (fun _ _ _ distinct written => distinct.write written) distinct

theorem Distinct.nodup_list (distinct : fs.Distinct) (l : Location) : (fs.list l).Nodup := by
  have listed : (fs.entries.filterMap fun e => if e.1.dropLast = l then e.1.getLast? else none) =
      (fs.entries.map Prod.fst).filterMap fun k => if k.dropLast = l then k.getLast? else none := by
    rw [List.filterMap_map]
    rfl
  rw [list, (List.mergeSort_perm _ _).nodup_iff, listed]
  refine List.Nodup.filterMap (fun k k' name here here' => ?_) distinct
  have whole : ∀ k : Location, name ∈ (if k.dropLast = l then k.getLast? else none) → k = l ++ [name] := by
    intro k here
    split at here
    · next above =>
      obtain ⟨ys, rfl⟩ := List.getLast?_eq_some_iff.mp here
      rw [← above, List.dropLast_concat]
    · simp at here
  rw [whole k here, whole k' here']

/-! ## Growing without links -/

/-- Everything is still there, and nothing that was added is a link. -/
structure Extended (fs fs' : FileSystem) : Prop extends Grown fs fs' where
  fresh : ∀ l, fs.node? l = none → ∀ n, fs'.node? l = some n → ¬ n.IsLink

theorem Extended.refl (fs : FileSystem) : Extended fs fs where
  node := fun _ n hn => ⟨n, hn, .refl n⟩
  workingDirectory := rfl
  fresh := by simp_all

theorem Extended.trans (h : Extended fs fs') (h' : Extended fs' fs'') : Extended fs fs'' where
  toGrown := h.toGrown.trans h'.toGrown
  fresh := by
    intro l free n hn
    cases between : fs'.node? l with
    | none => exact h'.fresh l between n hn
    | some n' =>
      obtain ⟨n'', hn'', like⟩ := h'.node l n' between
      obtain rfl : n'' = n := Option.some.inj (hn''.symm.trans hn)
      exact mt like.isLink_iff.mp (h.fresh l free n' between)

theorem Extended.notLink (h : Extended fs fs') (noLink : ∀ n, fs.node? l = some n → ¬ n.IsLink) (n : Node)
    (hn : fs'.node? l = some n) : ¬ n.IsLink := by
  cases before : fs.node? l with
  | none => exact h.fresh l before n hn
  | some m =>
    obtain ⟨n', hn', like⟩ := h.node l m before
    obtain rfl : n' = n := Option.some.inj (hn'.symm.trans hn)
    exact mt like.isLink_iff.mp (noLink m before)

theorem extended_put (ne : l ≠ []) (notLink : ¬ n.IsLink)
    (before : fs.node? l = none ∨ ∃ m, fs.node? l = some m ∧ m.Like n) : Extended fs (fs.put l n) where
  node := by
    intro k m hm
    rw [node?_put fs ne]
    by_cases here : k = l
    · subst here
      obtain free | ⟨m', there, like⟩ := before
      · simp [free] at hm
      · obtain rfl : m' = m := Option.some.inj (there.symm.trans hm)
        exact ⟨n, if_pos rfl, like⟩
    · exact ⟨m, (if_neg here).trans hm, .refl m⟩
  workingDirectory := rfl
  fresh := by
    intro k free m hm
    rw [node?_put fs ne] at hm
    by_cases here : k = l
    · rw [if_pos here, Option.some.injEq] at hm
      exact hm ▸ notLink
    · rw [if_neg here, free] at hm
      simp at hm

theorem extended_put_file (ne : l ≠ []) (before : fs.node? l = none ∨ ∃ old, fs.node? l = some (.file old))
    (bytes : List UInt8) : Extended fs (fs.put l (.file bytes)) := by
  refine extended_put ne (by simp [Node.IsLink]) ?_
  rcases before with free | ⟨old, there⟩
  · exact .inl free
  · exact .inr ⟨_, there, trivial⟩

end FileSystem

end Files

end ModelDepot
