import ModelDepot.Proofs.Files.Passing

/-! # Steps upward

In the text of a path, a step upward takes back the name before it. Where that name is one of a directory, and not of
a link, the path leads to the same place with and without the two.
-/

namespace ModelDepot

namespace Files

/-! ## Names of a path -/

theorem Path.names_eq_filter (p : Path) : p.names = (splitSlashes p.bytes).filter (! isIdle ·) := by
  unfold names parts
  cases pieces : splitSlashes p.bytes with
  | nil => rfl
  | cons first rest =>
    by_cases empty : first = []
    · cases rest <;> simp [empty, isIdle]
    · by_cases dotted : first = dot
      · have idle : isIdle dot = true := rfl
        simp [dotted, show dot ≠ [] by decide, idle]
      · simp [empty, dotted]

theorem Location.resolve_concat (l : Location) (names : List Name) (name : Name) :
    resolve l (names ++ [name]) =
      if name = dotDot then (resolve l names).dropLast else resolve l names ++ [name] := by
  simp only [resolve, List.foldl_append, List.foldl_cons, List.foldl_nil]

theorem Location.fault?_of_front {front place : Location} (proper : place.Proper) (before : front <+: place)
    (fine : place.path.fault? = none) : front.path.fault? = none := by
  obtain ⟨more, rfl⟩ := before
  induction more using List.reverseRecOn with
  | nil => simpa using fine
  | append_singleton more name ih =>
    rw [← List.append_assoc] at proper fine
    have shorter : Proper (front ++ more) := fun n hn => proper n (List.mem_append_left _ hn)
    have segment : Segment name := proper name (by simp)
    rw [← child_path shorter segment] at fine
    exact ih shorter (Path.fault?_of_child segment fine)

namespace FileSystem

variable {fs fs' : FileSystem} {links left : Nat} {here k l : Location} {names : List Name} {p : Path}

/-! ## Ways -/

theorem Way.left_le (way : Way fs links here names left l) : left ≤ links := by
  induction way with
  | stay => exact Nat.le_refl _
  | idle _ _ _ ih | up _ _ ih | down _ _ _ _ _ ih => exact ih
  | link _ _ _ _ ih => omega

theorem Way.short (way : Way fs links here names left l) : ∀ n ∈ names, n.length ≤ maxName := by
  induction way with
  | stay => simp
  | idle _ idle _ ih =>
    refine List.forall_mem_cons.mpr ⟨?_, ih⟩
    obtain rfl | rfl := idle <;> decide
  | up _ _ ih => exact List.forall_mem_cons.mpr ⟨by decide, ih⟩
  | down _ proper _ _ _ ih => exact List.forall_mem_cons.mpr ⟨proper.length_le, ih⟩
  | link _ proper _ _ ih =>
    exact List.forall_mem_cons.mpr ⟨proper.length_le, fun n hn => ih n (List.mem_append_right _ hn)⟩

theorem Sound.way (sound : fs.Sound) {n : Node} (node : fs.node? (here ++ names) = some n) (notLink : ¬ n.IsLink)
    (proper : ∀ m ∈ names, Proper m) : Way fs links here names links (here ++ names) := by
  induction names generalizing here with
  | nil =>
    rw [List.append_nil]
    exact .stay _ _
  | cons name rest ih =>
    have directory := sound.above (List.cons_ne_nil name rest) node
    rw [List.append_cons] at node ⊢
    have on : Way fs links (here ++ [name]) rest links (here ++ [name] ++ rest) :=
      ih node fun m hm => proper m (List.mem_cons_of_mem _ hm)
    obtain ⟨m, there, plain⟩ : ∃ m, fs.node? (here ++ [name]) = some m ∧ ¬ m.IsLink := by
      by_cases last : rest = []
      · exact ⟨n, by simpa [last] using node, notLink⟩
      · exact ⟨.directory, sound.above last node, by simp [Node.IsLink]⟩
    exact .down directory (proper name List.mem_cons_self) there plain on

theorem Way.of_busy (way : Way fs links here (names.filter (! Path.isIdle ·)) left l)
    (directory : fs.node? l = some .directory) : Way fs links here names left l := by
  induction names generalizing links here with
  | nil => exact way
  | cons name rest ih =>
    by_cases idle : Path.isIdle name = true
    · rw [List.filter_cons_of_neg (by simp [idle])] at way
      have kind : name = [] ∨ name = dot := by simpa [Path.isIdle] using idle
      exact .idle (way.directory_of_end directory) kind (ih way)
    · rw [List.filter_cons_of_pos (by simp [idle])] at way
      rw [← List.singleton_append] at way
      obtain ⟨mid, there, first, others⟩ := way.split
      exact first.append (ih others)

/-! ## Following with more links -/

theorem follow_add {last : Bool} (more : Nat) (few : fs.follow last links here names ≠ .error .tooManyLinks) :
    fs.follow last (links + more) here names = fs.follow last links here names := by
  fun_induction FileSystem.follow fs last links here names with
  | case1 links here n node => exact follow_nil last node
  | case2 links here nothing =>
    rw [follow.eq_def]
    simp only [nothing]
  | case3 links here name rest notDirectory =>
    rw [follow.eq_def]
    simp only [if_pos notDirectory]
  | case4 links here name rest directory idle ih =>
    rw [follow_idle last (Decidable.not_not.mp directory) idle]
    exact ih few
  | case5 links here rest directory idle ih =>
    rw [follow_up last (Decidable.not_not.mp directory)]
    exact ih few
  | case6 links here name rest directory idle up long =>
    rw [follow.eq_def]
    simp only [if_neg directory, if_neg idle, if_neg up, if_pos long]
  | case10 => exact absurd rfl few
  | case7 links here name directory idle up short there nothing =>
    have proper : Proper name := proper_of_busy idle up short
    rw [follow_proper last (Decidable.not_not.mp directory) proper, nothing]
    rfl
  | case8 links here name rest directory idle up short there nothing goesOn =>
    have proper : Proper name := proper_of_busy idle up short
    rw [follow_proper last (Decidable.not_not.mp directory) proper, nothing]
    exact if_neg goesOn
  | case9 links here name rest directory idle up short there target node stays =>
    have proper : Proper name := proper_of_busy idle up short
    rw [follow_proper last (Decidable.not_not.mp directory) proper, node]
    exact if_pos stays
  | case11 here name rest directory idle up short there target node goesOn links ih =>
    have proper : Proper name := proper_of_busy idle up short
    rw [follow_proper last (Decidable.not_not.mp directory) proper, node, Nat.succ_add]
    simp only [if_neg goesOn]
    exact ih few
  | case12 links here name rest directory idle up short there n notLink node ih =>
    have proper : Proper name := proper_of_busy idle up short
    rw [follow_down last (Decidable.not_not.mp directory) proper node (not_exists.mpr notLink)]
    exact ih few

theorem follow_append_tooManyLinks (more : List Name)
    (tooMany : fs.follow true links here names = .error .tooManyLinks) :
    fs.follow true links here (names ++ more) = .error .tooManyLinks := by
  fun_induction FileSystem.follow fs true links here names with
  | case4 links here name rest directory idle ih =>
    rw [List.cons_append, follow_idle true (Decidable.not_not.mp directory) idle]
    exact ih tooMany
  | case5 links here rest directory idle ih =>
    rw [List.cons_append, follow_up true (Decidable.not_not.mp directory)]
    exact ih tooMany
  | case10 here name rest directory idle up short there target node =>
    have proper : Proper name := proper_of_busy idle up short
    rw [List.cons_append, follow_proper true (Decidable.not_not.mp directory) proper, node]
    simp
  | case11 here name rest directory idle up short there target node goesOn links ih =>
    have proper : Proper name := proper_of_busy idle up short
    rw [List.cons_append, follow_link true (Decidable.not_not.mp directory) proper node (.inr rfl), ← List.append_assoc]
    exact ih tooMany
  | case12 links here name rest directory idle up short there n notLink node ih =>
    have proper : Proper name := proper_of_busy idle up short
    rw [List.cons_append, follow_down true (Decidable.not_not.mp directory) proper node (not_exists.mpr notLink)]
    exact ih tooMany
  | _ => simp at tooMany

/-! ## Paths of locations -/

theorem Way.locate_concat {place : Location} {name : Name} (way : Way fs maxLinks [] place left l)
    (proper : Location.Proper (place ++ [name])) (fine : (Location.path (place ++ [name])).fault? = none) (last : Bool) :
    fs.locate last (Location.path (place ++ [name])) = fs.follow last left l [name] := by
  rw [locate_path proper fine, way.follow last (.inl (by simp))]

theorem locate_tooManyLinks {front place : Location} (proper : place.Proper) (fine : place.path.fault? = none)
    (before : front <+: place) (tooMany : fs.locate true front.path = .error .tooManyLinks) :
    fs.locate true place.path = .error .tooManyLinks := by
  rw [locate_path (fun n hn => proper n (before.subset hn)) (Location.fault?_of_front proper before fine)] at tooMany
  obtain ⟨more, rfl⟩ := before
  rw [locate_path proper fine]
  exact follow_append_tooManyLinks more tooMany

theorem isDirectory_of_beyond {last : Bool} {spot : Spot} {place : Location} (proper : place.Proper) (front : k <+: place)
    (ne : k ≠ place) (found : fs.locate last place.path = .ok spot) : fs.isDirectory k.path = true := by
  have fine := Location.fault?_of_front proper front (follow_of_locate found).2.1
  have found := follow_path_of_locate proper found
  obtain ⟨more, rfl⟩ := front
  obtain ⟨name, rest, rfl⟩ := List.exists_cons_of_ne_nil (by simpa using ne : more ≠ [])
  have segment := proper name (by simp)
  obtain ⟨left, l, way, on⟩ := exists_way last ⟨name, List.mem_cons_self, segment.ne_nil⟩ found
  have leads := way.leads_path fun n hn => proper n (List.mem_append_left _ hn)
  have reaches : fs.Reaches k.path l := ⟨fine, by simp [Location.path], leads⟩
  exact isDirectory_iff.mpr ⟨l, reaches.status (directory_of_follow on)⟩

theorem fits_of_makeDirectories {place : Location} (proper : place.Proper)
    (made : fs.makeDirectories place.path = (.ok (), fs')) : place.path.fault? = none ∧ ∀ n ∈ place, Proper n := by
  obtain ⟨l, found⟩ := isDirectory_iff.mp (isDirectory_of_makeDirectories proper made)
  have located := locate_of_status found
  obtain ⟨left, way⟩ := way_of_follow (follow_path_of_locate proper located)
  exact ⟨(follow_of_locate located).2.1, fun n hn => (proper n hn).proper (way.short n hn)⟩

/-- **Nothing can be made beyond something that is no directory** and leads to none. -/
theorem makeLineage_fails {place : Location} (proper : place.Proper) (front : k <+: place) {n : Node}
    (there : fs.locate false k.path = .ok (.found l n)) (none' : fs.isDirectory k.path = false) (j : Nat) :
    ∃ e, fs.makeLineage (Path.lineageFrom j place.path) = (.error e, fs) := by
  induction j generalizing place with
  | zero => exact ⟨_, rfl⟩
  | succ j ih =>
    have some' : place.path.bytes ≠ [] := by simp [Location.path]
    obtain rfl | ne := eq_or_ne k place
    · have failed : fs.makeDirectory k.path = .error .alreadyExists := by
        rw [makeDirectory, Location.unslashed_path proper]
        simp only [there]
      rw [Path.lineageFrom, makeLineage_of_error some' failed (by decide), none']
      exact ⟨_, rfl⟩
    · obtain ⟨above, name, rfl⟩ : ∃ above name, place = above ++ [name] := by
        obtain rfl | ⟨above, name, rfl⟩ := List.eq_nil_or_concat place
        · exact absurd (List.prefix_nil.mp front) ne
        · exact ⟨above, name, by simp⟩
      have nearer : k <+: above := (List.prefix_concat_iff.mp front).resolve_left ne
      have beyond : ∀ last spot, fs.locate last (Location.path (above ++ [name])) ≠ .ok spot := by
        intro last spot found
        simp [isDirectory_of_beyond proper front ne found] at none'
      have notThere : fs.isDirectory (Location.path (above ++ [name])) = false := by
        by_contra there
        obtain ⟨l, found⟩ := isDirectory_iff.mp (by simpa using there)
        exact beyond true _ (locate_of_status found)
      obtain ⟨e, failed⟩ := ih (fun n hn => proper n (List.mem_append_left _ hn)) nearer
      cases made : fs.makeDirectory (Location.path (above ++ [name])) with
      | ok fs' =>
        obtain ⟨l, free, -⟩ := locate_of_makeDirectory proper made
        exact absurd free (beyond false _)
      | error e' =>
        by_cases missing : e' = .noEntry
        · subst missing
          rw [Path.lineageFrom, Location.parent?_path proper, if_neg (by simp), makeLineage, if_neg some', made]
          simp only [List.dropLast_concat, failed]
          exact ⟨e, rfl⟩
        · rw [Path.lineageFrom, makeLineage_of_error some' made missing, notThere]
          exact ⟨_, rfl⟩

/-! ## Names taken back -/

/-- Each step upward in a path goes back from a directory that the names before it spell, and not from one that a link
with the last of these names leads to. -/
def Retraced (fs : FileSystem) (p : Path) : Prop :=
  ∀ before, before ++ [dotDot] <+: p.names → Location.resolve (fs.start p) before = [] ∨
    ∃ l, fs.locate false (Location.path (Location.resolve (fs.start p) before)) = .ok (.found l .directory)

theorem way_of_directory {above : Location} {name : Name} (proper : Location.Proper (above ++ [name]))
    (found : fs.locate false (Location.path (above ++ [name])) = .ok (.found l .directory)) :
    ∃ mid there, Way fs maxLinks [] above mid there ∧ Way fs mid there [name] mid l ∧ l = there ++ [name] := by
  have segment := proper name (by simp)
  have found := follow_path_of_locate proper found
  obtain ⟨mid, there, way, on⟩ := exists_way false ⟨name, List.mem_cons_self, segment.ne_nil⟩ found
  have directory := directory_of_follow on
  have proper := proper_of_follow segment on
  refine ⟨mid, there, way, ?_⟩
  rw [follow_proper false directory proper] at on
  cases node : fs.node? (there ++ [name]) with
  | none => simp [node] at on
  | some n =>
    have notLink : ¬ n.IsLink := by
      rintro ⟨target, rfl⟩
      simp [node] at on
    rw [← follow_proper false directory proper, follow_down false directory proper node notLink, follow_nil false node,
      Except.ok.injEq, Spot.found.injEq] at on
    obtain ⟨rfl, rfl⟩ := on
    exact ⟨.down directory proper node notLink (.stay _ _), rfl⟩

/-- **Names lead where they lead with those taken back left out**, each step upward being one from a directory. -/
theorem Retraced.way_names (retraced : fs.Retraced p) (sound : fs.Sound)
    (straight : Way fs maxLinks [] (fs.start p) maxLinks (fs.start p)) (sub : names <+: p.names)
    (way : Way fs maxLinks [] (Location.resolve (fs.start p) names) left l) :
    Way fs maxLinks (fs.start p) names left l := by
  induction names using List.reverseRecOn generalizing left l with
  | nil =>
    obtain ⟨rfl, rfl⟩ := straight.unique way
    exact .stay _ _
  | append_singleton names name ih =>
    have before := (List.prefix_append names [name]).trans sub
    rw [Location.resolve_concat] at way
    split at way
    · next up =>
      subst up
      have proper := sound.proper_resolve before.subset
      obtain top | ⟨above, name, last⟩ := List.eq_nil_or_concat (Location.resolve (fs.start p) names)
      · -- The root is its own parent.
        rw [top, List.dropLast_nil] at way
        obtain ⟨rfl, rfl⟩ := Way.unique (.stay _ _) way
        have root : fs.node? [] = some .directory := if_pos rfl
        have stays : Way fs maxLinks [] (Location.resolve (fs.start p) names) maxLinks [] := by
          rw [top]
          exact .stay _ _
        exact (ih before stays).append (.up root (.stay _ _))
      · rw [List.concat_eq_append] at last
        obtain ⟨k, found⟩ := (retraced names sub).resolve_left (by simp [last])
        rw [last] at proper found
        rw [last, List.dropLast_concat] at way
        obtain ⟨mid, there, first, into, rfl⟩ := way_of_directory proper found
        obtain ⟨rfl, rfl⟩ := first.unique way
        have back : Way fs left (l ++ [name]) [dotDot] left l := by
          refine .up (holds_of_locate false found) ?_
          rw [List.dropLast_concat]
          exact .stay _ _
        exact (ih before (last ▸ first.append into)).append back
    · obtain ⟨mid, there, first, last⟩ := way.split
      exact (ih before first).append last

theorem Retraced.reaches (retraced : fs.Retraced p) (sound : fs.Sound)
    (straight : Way fs maxLinks [] (fs.start p) maxLinks (fs.start p)) (some' : p.bytes ≠ []) (fine : p.fault? = none)
    (way : Way fs maxLinks [] (fs.spelled p) left l) (directory : fs.node? l = some .directory) : fs.Reaches p l := by
  have names := retraced.way_names sound straight (List.prefix_refl _) way
  rw [Path.names_eq_filter] at names
  exact ⟨fine, some', left, names.of_busy directory⟩

end FileSystem

end Files

end ModelDepot
