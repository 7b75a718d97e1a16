import ModelDepot.Proofs.Files.Trees

/-! # Paths of locations

The path of a location spells its names, so that it leads to that location if no link is on the way. Its
parent is the path of the directory above.
-/

namespace ModelDepot

namespace Files

variable {l : Location} {name : Name}

theorem splitSlashes_joinSlashes (ne : l ≠ []) (noSlash : ∀ n ∈ l, slash ∉ n) : splitSlashes (joinSlashes l) = l := by
  induction l with
  | nil => exact absurd rfl ne
  | cons n rest ih =>
    have alone := splitSlashes_of_noSlash n (noSlash n (by simp))
    cases rest with
    | nil => exact alone
    | cons m more =>
      rw [joinSlashes, splitSlashes_append, alone, ih (by simp) fun x hx => noSlash x (by simp [hx])]
      · rfl
      · simp

theorem joinSlashes_concat (ne : l ≠ []) (name : Name) : joinSlashes (l ++ [name]) = joinSlashes l ++ slash :: name := by
  induction l with
  | nil => exact absurd rfl ne
  | cons n rest ih =>
    cases rest with
    | nil => rfl
    | cons m more =>
      have := ih (by simp)
      simp only [List.cons_append, joinSlashes] at this ⊢
      simp [this]

namespace Location

/-- Every name of a location can be one. -/
def Proper (l : Location) : Prop := ∀ name ∈ l, Segment name

theorem Proper.concat (proper : Proper l) (segment : Segment name) : Proper (l ++ [name]) := by
  intro n hn
  obtain hn | hn := List.mem_append.mp hn
  · exact proper n hn
  · exact List.mem_singleton.mp hn ▸ segment

theorem Proper.append {l' : Location} (proper : Proper l) (proper' : Proper l') : Proper (l ++ l') := by
  intro n hn
  rcases List.mem_append.mp hn with hn | hn
  · exact proper n hn
  · exact proper' n hn

theorem Proper.take (proper : Proper l) (k : Nat) : Proper (l.take k) := fun n hn => proper n (List.mem_of_mem_take hn)

theorem Proper.dropLast (proper : Proper l) : Proper l.dropLast := fun n hn => proper n (List.dropLast_subset l hn)

/-! ## Names that paths hold -/

theorem mem_splitSlashes_of_mem_parts {p : Path} (mem : name ∈ p.parts.2) : name ∈ splitSlashes p.bytes := by
  unfold Path.parts at mem
  cases pieces : splitSlashes p.bytes with
  | nil => simp [pieces] at mem
  | cons first rest =>
    simp only [pieces] at mem
    split at mem
    · split at mem
      · simp at mem
      · exact List.mem_cons_of_mem _ mem
    · split at mem
      · exact List.mem_cons_of_mem _ mem
      · exact mem

theorem noSlash_of_mem_names {p : Path} (mem : name ∈ p.names) : slash ∉ name :=
  noSlash_of_mem_splitSlashes (mem_splitSlashes_of_mem_parts (List.mem_filter.mp mem).1)

theorem proper_resolve {names : List Name} (proper : Proper l)
    (pieces : ∀ n ∈ names, Path.isIdle n = false ∧ slash ∉ n) : Proper (resolve l names) := by
  induction names generalizing l with
  | nil => exact proper
  | cons n rest ih =>
    have others := fun m hm => pieces m (List.mem_cons_of_mem n hm)
    obtain ⟨notIdle, noSlash⟩ := pieces n (by simp)
    by_cases up : n = dotDot
    · rw [resolve, List.foldl_cons, if_pos up]
      exact ih proper.dropLast others
    · rw [resolve, List.foldl_cons, if_neg up]
      simp only [Path.isIdle, Bool.or_eq_false_iff, List.isEmpty_eq_false_iff, beq_eq_false_iff_ne] at notIdle
      exact ih (proper.concat ⟨notIdle.1, notIdle.2, up, noSlash⟩) others

/-! ## Names after a path -/

theorem getLast?_path (proper : Proper l) (ne : l ≠ []) : (path l).bytes.getLast? ≠ some slash := by
  obtain ⟨above, n, rfl⟩ := (List.eq_nil_or_concat l).resolve_left ne
  rw [List.concat_eq_append] at proper ⊢
  have segment := proper n (by simp)
  have ending : ∃ ys, (path (above ++ [n])).bytes = ys ++ n := by
    by_cases first : above = []
    · exact ⟨[slash], by simp [path, first, joinSlashes]⟩
    · exact ⟨slash :: (joinSlashes above ++ [slash]), by simp [path, joinSlashes_concat first]⟩
  obtain ⟨ys, ending⟩ := ending
  have hb : n.getLast? = some (n.getLast segment.ne_nil) := List.getLast?_eq_some_getLast segment.ne_nil
  generalize n.getLast segment.ne_nil = b at hb
  rw [ending, List.getLast?_append, hb]
  intro last
  obtain rfl : b = slash := Option.some.inj last
  exact segment.noSlash (List.mem_of_getLast? hb)

theorem child_path (proper : Proper l) (segment : Segment name) : (path l).child name = path (l ++ [name]) := by
  have some' : (path l).bytes ≠ [] := by simp [path]
  rw [Path.child_eq _ segment, if_neg some']
  by_cases root : l = []
  · subst root
    rfl
  · rw [if_neg (getLast?_path proper root)]
    simp [path, joinSlashes_concat root]

theorem unslashed_path (proper : Proper l) : FileSystem.unslashed (path l) = (path l, false) := by
  obtain rfl | ⟨above, n, rfl⟩ := List.eq_nil_or_concat l
  · rfl
  · rw [List.concat_eq_append] at proper ⊢
    have segment := proper n (by simp)
    rw [← child_path (fun m hm => proper m (by simp [hm])) segment]
    exact FileSystem.unslashed_child segment

/-! ## The directories above -/

theorem trimIdle_of_proper (proper : Proper l) : Path.trimIdle l = l := by
  obtain rfl | ⟨above, n, rfl⟩ := List.eq_nil_or_concat l
  · rfl
  · rw [List.concat_eq_append] at proper ⊢
    have segment := proper n (by simp)
    have notIdle : Path.isIdle n = false := by simp [Path.isIdle, segment.ne_nil, segment.ne_dot]
    simp [Path.trimIdle, notIdle]

theorem parts_path (proper : Proper l) (ne : l ≠ []) : (path l).parts = ([slash], l) := by
  have pieces : splitSlashes (path l).bytes = [] :: l := by
    rw [path, splitSlashes, if_pos rfl, splitSlashes_joinSlashes ne fun n hn => (proper n hn).noSlash]
  unfold Path.parts
  rw [pieces]
  simp [ne]

theorem parent?_path (proper : Proper l) : (path l).parent? = if l = [] then none else some (path l.dropLast) := by
  obtain rfl | ⟨above, n, rfl⟩ := List.eq_nil_or_concat l
  · decide
  · rw [List.concat_eq_append] at proper ⊢
    have shorter : Proper above := fun m hm => proper m (by simp [hm])
    have whole := trimIdle_of_proper proper
    have dropped : (above ++ [n]).dropLast = above := List.dropLast_concat
    rw [if_neg (by simp), dropped, Path.parent?, parts_path proper (by simp)]
    simp only
    split
    · next idle => simp [whole] at idle
    · next kept first rest same =>
      rw [← same, whole, dropped, trimIdle_of_proper shorter]
      rfl

theorem parent_path (proper : Proper l) : (path l).parent?.getD (path l) = path l.dropLast := by
  rw [parent?_path proper]
  split
  · next root => simp [root]
  · rfl

theorem lineageFrom_path (k : Nat) (proper : Proper l) : ∀ q ∈ Path.lineageFrom k (path l), ∃ j, q = path (l.take j) := by
  induction k generalizing l with
  | zero => simp [Path.lineageFrom]
  | succ k ih =>
    intro q hq
    rw [Path.lineageFrom, parent?_path proper] at hq
    obtain rfl | hq := List.mem_cons.mp hq
    · exact ⟨l.length, by simp⟩
    · split at hq
      · next p parent =>
        split at parent
        · simp at parent
        obtain rfl := Option.some.inj parent
        rw [List.dropLast_eq_take] at hq
        obtain ⟨j, rfl⟩ := ih (proper.take _) q hq
        exact ⟨min j (l.length - 1), by rw [List.take_take]⟩
      · simp at hq

theorem lineage_path (proper : Proper l) : ∀ q ∈ (path l).lineage, ∃ j, q = path (l.take j) :=
  lineageFrom_path _ proper

end Location

namespace FileSystem

variable {fs : FileSystem} {last : Bool} {spot : Spot}

/-! ## What paths spell -/

/-- The location that the names of a path are followed from. -/
def start (fs : FileSystem) (p : Path) : Location := if p.isAbsolute then [] else fs.workingDirectory

/-- The location that a path spells, each step upward in it taking back the name before. -/
def spelled (fs : FileSystem) (p : Path) : Location := Location.resolve (fs.start p) p.names

theorem Sound.proper_resolve (sound : fs.Sound) {p : Path} {names : List Name} (sub : names ⊆ p.names) :
    Location.Proper (Location.resolve (fs.start p) names) := by
  have start : Location.Proper (fs.start p) := by
    unfold FileSystem.start
    split
    · simp [Location.Proper]
    · exact sound.working
  refine Location.proper_resolve start fun n hn => ⟨?_, Location.noSlash_of_mem_names (sub hn)⟩
  simpa using (List.mem_filter.mp (sub hn)).2

/-! ## Where paths of locations lead -/

theorem Way.leads_path {left : Nat} {k : Location} (way : Way fs maxLinks [] l left k) (proper : l.Proper) :
    fs.Leads l.path k := by
  have root : fs.node? [] = some .directory := if_pos rfl
  have absolute : l.path.isAbsolute = true := by simp [Location.path, Path.isAbsolute]
  refine ⟨left, ?_⟩
  rw [absolute, if_pos rfl, Location.path, splitSlashes, if_pos rfl]
  refine .idle root (.inl rfl) ?_
  by_cases ne : l = []
  · subst ne
    exact .idle root (.inl rfl) way
  · rwa [splitSlashes_joinSlashes ne fun n hn => (proper n hn).noSlash]

theorem locate_path (proper : l.Proper) (fine : l.path.fault? = none) :
    fs.locate last l.path = fs.follow last maxLinks [] l := by
  have root : fs.node? [] = some .directory := if_pos rfl
  have absolute : l.path.isAbsolute = true := by simp [Location.path, Path.isAbsolute]
  rw [locate_eq last (by simp [Location.path]), fine, absolute, if_pos rfl, Location.path, splitSlashes, if_pos rfl]
  simp only [follow_idle last root (.inl rfl)]
  by_cases ne : l = []
  · subst ne
    exact follow_idle last root (.inl rfl)
  · rw [splitSlashes_joinSlashes ne fun n hn => (proper n hn).noSlash]

theorem follow_path_of_locate (proper : l.Proper) (found : fs.locate last l.path = .ok spot) :
    fs.follow last maxLinks [] l = .ok spot := by
  rwa [locate_path proper (follow_of_locate found).2.1] at found

theorem location_of_locate (proper : l.Proper)
    (noLinks : ∀ k n, k <+: l → fs.node? k = some n → ¬ n.IsLink) (found : fs.locate last l.path = .ok spot) :
    spot.location = l :=
  location_of_follow proper (fun k n _ before node => noLinks k n before node) (follow_path_of_locate proper found)

end FileSystem

end Files

end ModelDepot
