import ModelDepot.Proofs.Files.Making
import ModelDepot.Proofs.Files.Trees

/-! # Paths that reach something

A path reaches a location if it leads there and can be looked up. It still does when the file system grows, or
when a file elsewhere is taken away, and after a file is copied its target path reaches the copy.
-/

namespace ModelDepot

namespace Files

namespace FileSystem

variable {fs fs' : FileSystem} {links left : Nat} {here l t : Location} {names : List Name} {p : Path}

/-! ## Reaching -/

/-- A path leads to a location, and nothing forbids to look it up. -/
structure Reaches (fs : FileSystem) (p : Path) (l : Location) : Prop where
  fine : p.fault? = none
  some' : p.bytes ≠ []
  leads : fs.Leads p l

theorem Reaches.grown (reaches : fs.Reaches p l) (grown : Grown fs fs') : fs'.Reaches p l :=
  ⟨reaches.fine, reaches.some', reaches.leads.grown grown⟩

theorem Reaches.locate (reaches : fs.Reaches p l) {n : Node} (node : fs.node? l = some n) :
    fs.locate true p = .ok (.found l n) := by
  obtain ⟨left, way⟩ := reaches.leads
  have followed : fs.follow true maxLinks _ (splitSlashes p.bytes ++ []) = fs.follow true left l [] :=
    way.follow true (.inr rfl)
  rw [List.append_nil] at followed
  rw [locate_eq true reaches.some', reaches.fine]
  simp only [followed, follow_nil true node]

theorem Reaches.status (reaches : fs.Reaches p l) {n : Node} (node : fs.node? l = some n) :
    fs.status p = .ok (l, n) := by
  rw [FileSystem.status, reaches.locate node]

theorem isDirectory_iff : fs.isDirectory p = true ↔ ∃ l, fs.status p = .ok (l, .directory) := by
  unfold isDirectory
  split
  · next l found => exact ⟨fun _ => ⟨l, found⟩, fun _ => rfl⟩
  · next other =>
    refine ⟨by simp, ?_⟩
    rintro ⟨l, found⟩
    exact absurd found (other l)

theorem locate_of_status {n : Node} (found : fs.status p = .ok (l, n)) : fs.locate true p = .ok (.found l n) := by
  unfold FileSystem.status at found
  split at found
  · next located =>
    obtain ⟨rfl, rfl⟩ := Prod.mk.inj (Except.ok.inj found)
    exact located
  · simp at found
  · simp at found

theorem status_of_canonical (found : fs.canonical p = .ok l) : ∃ n, fs.status p = .ok (l, n) := by
  unfold canonical at found
  cases status : fs.status p with
  | error e => simp [status, Except.map] at found
  | ok x =>
    simp only [status, Except.map, Except.ok.injEq] at found
    exact ⟨x.2, by rw [← found]⟩

theorem way_of_follow {n : Node} (found : fs.follow true links here names = .ok (.found l n)) :
    ∃ left, Way fs links here names left l := by
  fun_induction FileSystem.follow fs true links here names with
  | case1 links here m node =>
    obtain ⟨rfl, -⟩ : here = l ∧ m = n := by simpa using found
    exact ⟨links, .stay _ _⟩
  | case4 links here name rest directory idle ih =>
    obtain ⟨left, way⟩ := ih found
    exact ⟨left, .idle (by simpa using directory) idle way⟩
  | case5 links here rest directory idle ih =>
    obtain ⟨left, way⟩ := ih found
    exact ⟨left, .up (by simpa using directory) way⟩
  | case11 here name rest directory idle up short there target node last links ih =>
    obtain ⟨left, way⟩ := ih found
    have proper : Proper name := proper_of_busy idle up short
    exact ⟨left, .link (by simpa using directory) proper node way⟩
  | case12 links here name rest directory idle up short there m notLink node ih =>
    obtain ⟨left, way⟩ := ih found
    have proper : Proper name := proper_of_busy idle up short
    exact ⟨left, .down (by simpa using directory) proper node (not_exists.mpr notLink) way⟩
  | case9 _ _ _ _ _ _ _ _ _ _ _ last => simp at last
  | _ => simp at found

theorem reaches_of_locate {n : Node} (found : fs.locate true p = .ok (.found l n)) : fs.Reaches p l := by
  obtain ⟨some', fine, found⟩ := follow_of_locate found
  exact ⟨fine, some', way_of_follow found⟩

theorem reaches_of_status {n : Node} (found : fs.status p = .ok (l, n)) : fs.Reaches p l ∧ fs.node? l = some n :=
  ⟨reaches_of_locate (locate_of_status found), holds_of_locate true (locate_of_status found)⟩

theorem status_grown (grown : Grown fs fs') {n : Node} (found : fs.status p = .ok (l, n)) :
    ∃ n', fs'.status p = .ok (l, n') ∧ n.Like n' := by
  obtain ⟨reaches, node⟩ := reaches_of_status found
  obtain ⟨n', node', like⟩ := grown.node l n node
  exact ⟨n', (reaches.grown grown).status node', like⟩

/-- A file elsewhere can be taken away, because no path leads through it. -/
theorem Way.without (way : Way fs links here names left l) {bytes : List UInt8} (file : fs.node? t = some (.file bytes))
    (other : l ≠ t) (rest : ∀ k, k ≠ t → fs'.node? k = fs.node? k) : Way fs' links here names left l := by
  have directories : ∀ k, fs.node? k = some .directory → fs'.node? k = some .directory := by
    intro k directory
    rw [rest k (by rintro rfl; simp [file] at directory), directory]
  induction way with
  | stay => exact .stay _ _
  | idle directory idle _ ih => exact .idle (directories _ directory) idle (ih other)
  | up directory _ ih => exact .up (directories _ directory) (ih other)
  | @down links left here l name names n directory proper node notLink on ih =>
    have elsewhere : here ++ [name] ≠ t := by
      intro same
      cases on with
      | stay => exact other same
      | idle directory => simp [same, file] at directory
      | up directory => simp [same, file] at directory
      | down directory => simp [same, file] at directory
      | link directory => simp [same, file] at directory
    exact .down (directories _ directory) proper ((rest _ elsewhere).trans node) notLink (ih other)
  | @link links left here l name names target directory proper node _ ih =>
    have elsewhere : here ++ [name] ≠ t := by
      intro same
      simp [same, file] at node
    exact .link (directories _ directory) proper ((rest _ elsewhere).trans node) (ih other)

theorem Leads.without (leads : fs.Leads p l) {bytes : List UInt8} (file : fs.node? t = some (.file bytes))
    (other : l ≠ t) (rest : ∀ k, k ≠ t → fs'.node? k = fs.node? k)
    (working : fs'.workingDirectory = fs.workingDirectory) :
    fs'.Leads p l := by
  obtain ⟨left, way⟩ := leads
  exact ⟨left, working ▸ way.without file other rest⟩

theorem Reaches.without (reaches : fs.Reaches p l) {bytes : List UInt8} (file : fs.node? t = some (.file bytes))
    (other : l ≠ t) (rest : ∀ k, k ≠ t → fs'.node? k = fs.node? k)
    (working : fs'.workingDirectory = fs.workingDirectory) :
    fs'.Reaches p l :=
  ⟨reaches.fine, reaches.some', reaches.leads.without file other rest working⟩

/-! ## Writing and copying -/

theorem extended_write {bytes : List UInt8} (written : fs.write p bytes = .ok fs') : Extended fs fs' := by
  rcases put_of_write written with ⟨spot, -, ne, before, rfl⟩ | ⟨-, -, -, -, rfl⟩
  · exact extended_put_file ne before bytes
  · exact .refl _

theorem extended_copy {source target : Path} (copied : fs.copy source target = .ok fs') : Extended fs fs' :=
  copy_keeps copied (fun _ _ _ extended written => extended.trans (extended_write written)) (.refl fs)

theorem Sound.copy (sound : fs.Sound) {source target : Path} (copied : fs.copy source target = .ok fs') : fs'.Sound :=
  copy_keeps copied (fun _ _ _ sound written => sound.write written) sound

theorem present_grown (grown : Grown fs fs') (there : fs.present p = true) : fs'.present p = true := by
  unfold present at there ⊢
  split at there
  · next found =>
    obtain ⟨n', found', -⟩ := status_grown grown found
    rw [found']
  · simp at there

theorem not_isLink_of_follow (sound : fs.Sound) {n : Node} (start : ∀ m, fs.node? here = some m → ¬ m.IsLink)
    (found : fs.follow true links here names = .ok (.found l n)) : ¬ n.IsLink := by
  fun_induction FileSystem.follow fs true links here names with
  | case1 links here m node =>
    obtain ⟨-, rfl⟩ : here = l ∧ m = n := by simpa using found
    exact start m node
  | case4 links here name rest directory idle ih => exact ih start found
  | case5 links here rest directory idle ih =>
    refine ih (fun m node => ?_) found
    obtain rfl | ⟨above, name, rfl⟩ := List.eq_nil_or_concat here
    · exact start m node
    · rw [List.concat_eq_append] at directory node
      have parent := sound.parents above name _ (Decidable.not_not.mp directory)
      rw [List.dropLast_concat, parent, Option.some.injEq] at node
      simp [← node, Node.IsLink]
  | case11 here name rest directory idle up short there target node last links ih =>
    refine ih (fun m node => ?_) found
    split at node
    · simp only [node?, if_true, Option.some.injEq] at node
      simp [← node, Node.IsLink]
    · exact start m node
  | case12 links here name rest directory idle up short there m notLink node ih =>
    refine ih (fun k node' => ?_) found
    obtain rfl : k = m := Option.some.inj (node'.symm.trans node)
    exact not_exists.mpr notLink
  | case9 _ _ _ _ _ _ _ _ _ _ _ last => simp at last
  | _ => simp at found

theorem not_isLink_of_locate (sound : fs.Sound) {n : Node} (found : fs.locate true p = .ok (.found l n)) :
    ¬ n.IsLink := by
  obtain ⟨-, -, found⟩ := follow_of_locate found
  obtain ⟨name, rest, pieces⟩ := List.exists_cons_of_ne_nil (splitSlashes_ne_nil p.bytes)
  rw [pieces] at found
  have directory := directory_of_follow found
  refine not_isLink_of_follow sound (fun m node => ?_) found
  obtain rfl : .directory = m := Option.some.inj (directory.symm.trans node)
  simp [Node.IsLink]

theorem follow_put {spot spot' : Spot} {bytes : List UInt8} (ne : l ≠ [])
    (before : fs.node? l = none ∨ ∃ old, fs.node? l = some (.file old))
    (found : fs.follow true links here names = .ok spot) (at' : spot.location = l)
    (again : (fs.put l (.file bytes)).follow true links here names = .ok spot') : spot' = .found l (.file bytes) := by
  have elsewhere : ∀ k, k ≠ l → (fs.put l (.file bytes)).node? k = fs.node? k := by
    intro k other
    rw [node?_put fs ne, if_neg other]
  have there : (fs.put l (.file bytes)).node? l = some (.file bytes) := by rw [node?_put fs ne, if_pos rfl]
  have directories : ∀ k, fs.node? k = some .directory → (fs.put l (.file bytes)).node? k = some .directory := by
    intro k directory
    refine (elsewhere k ?_).trans directory
    rintro rfl
    obtain free | ⟨old, file⟩ := before <;> simp_all
  fun_induction FileSystem.follow fs true links here names with
  | case1 links here m node =>
    obtain rfl : Spot.found here m = spot := Except.ok.inj found
    obtain rfl : here = l := at'
    rw [follow_nil true there, Except.ok.injEq] at again
    exact again.symm
  | case4 links here name rest directory idle ih =>
    rw [follow_idle true (directories _ (Decidable.not_not.mp directory)) idle] at again
    exact ih found again
  | case5 links here rest directory idle ih =>
    rw [follow_up true (directories _ (Decidable.not_not.mp directory))] at again
    exact ih found again
  | case7 links here name directory idle up short place nothing =>
    obtain rfl : Spot.free place = spot := Except.ok.inj found
    obtain rfl : place = l := at'
    have proper : Proper name := proper_of_busy idle up short
    rw [follow_down true (directories _ (Decidable.not_not.mp directory)) proper there (by simp [Node.IsLink]), follow_nil true there,
      Except.ok.injEq] at again
    exact again.symm
  | case11 here name rest directory idle up short place target node last links ih =>
    have proper : Proper name := proper_of_busy idle up short
    have other : place ≠ l := by
      rintro rfl
      obtain free | ⟨old, file⟩ := before <;> simp_all
    rw [follow_link true (directories _ (Decidable.not_not.mp directory)) proper ((elsewhere _ other).trans node)
      (.inr rfl)] at again
    exact ih found again
  | case12 links here name rest directory idle up short place m notLink node ih =>
    have proper : Proper name := proper_of_busy idle up short
    have some' : ∃ m', (fs.put l (.file bytes)).node? place = some m' ∧ ¬ m'.IsLink := by
      by_cases same : place = l
      · exact ⟨.file bytes, by rw [same, there], by simp [Node.IsLink]⟩
      · exact ⟨m, (elsewhere _ same).trans node, not_exists.mpr notLink⟩
    obtain ⟨m', node', notLink'⟩ := some'
    rw [follow_down true (directories _ (Decidable.not_not.mp directory)) proper node' notLink'] at again
    exact ih found again
  | case9 _ _ _ _ _ _ _ _ _ _ _ last => simp at last
  | _ => simp at found

theorem locate_put {spot spot' : Spot} {bytes : List UInt8} (ne : l ≠ [])
    (before : fs.node? l = none ∨ ∃ old, fs.node? l = some (.file old)) (found : fs.locate true p = .ok spot)
    (at' : spot.location = l) (again : (fs.put l (.file bytes)).locate true p = .ok spot') :
    spot' = .found l (.file bytes) := by
  obtain ⟨-, -, found⟩ := follow_of_locate found
  obtain ⟨-, -, again⟩ := follow_of_locate again
  exact follow_put ne before found at' again

theorem read_of_write {bytes : List UInt8} (written : fs.write p bytes = .ok fs') (there : fs'.present p = true) :
    fs'.read p = .ok bytes ∨ ∃ l n, fs.status p = .ok (l, n) ∧ (n = .other ∨ n.IsLink) ∧ fs' = fs := by
  rcases put_of_write written with ⟨spot, found, ne, before, rfl⟩ | ⟨l, n, found, kind, rfl⟩
  · unfold present at there
    split at there
    · next x status =>
      obtain ⟨l, n⟩ := x
      have kept := locate_put ne before (locate_of_writeSpot found) rfl (locate_of_status status)
      rw [Spot.found.injEq] at kept
      rw [kept.2] at status
      exact .inl (by simp only [read, status])
    · simp at there
  · refine .inr ⟨l, n, ?_, kind, rfl⟩
    simp only [status, locate_of_writeSpot found]

theorem read_of_rewrite {fs'' : FileSystem} {old bytes : List UInt8} (before : fs.read p = .ok old) (some' : old ≠ [])
    (grown : Grown fs fs') (written : fs'.write p bytes = .ok fs'') : fs''.read p = .ok bytes := by
  have file : ∃ l, fs.status p = .ok (l, .file old) := by
    unfold read at before
    split at before
    · next l bytes status => exact ⟨l, Except.ok.inj before ▸ status⟩
    · simp at before
    · exact absurd (Except.ok.inj before).symm some'
    · simp at before
  obtain ⟨l, status⟩ := file
  obtain ⟨n, status', like⟩ := status_grown grown status
  obtain ⟨m, status'', -⟩ := status_grown (extended_write written).toGrown status'
  obtain same | ⟨l', n', other, kind, -⟩ := read_of_write written (by simp only [present, status''])
  · exact same
  · rw [status', Except.ok.injEq, Prod.mk.injEq] at other
    obtain ⟨-, rfl⟩ := other
    obtain rfl | ⟨target, rfl⟩ := kind <;> simp [Node.Like] at like

theorem follow_put_segments {links : Nat} (links' : Nat) (bytes : List UInt8) {spot : Spot} (ne : names ≠ [])
    (segments : ∀ n ∈ names, Segment n)
    (noLinks : ∀ ns n, ns ≠ [] → ns <+: names → fs.node? (here ++ ns) = some n → ¬ n.IsLink)
    (before : fs.node? (here ++ names) = none ∨ ∃ old, fs.node? (here ++ names) = some (.file old))
    (found : fs.follow true links here names = .ok spot) :
    (fs.put (here ++ names) (.file bytes)).follow true links' here names = .ok (.found (here ++ names) (.file bytes)) := by
  induction names generalizing here with
  | nil => exact absurd rfl ne
  | cons name rest ih =>
    have ne' : here ++ name :: rest ≠ [] := by simp
    have directory := directory_of_follow found
    have segment := segments name (by simp)
    have later : (fs.put (here ++ name :: rest) (.file bytes)).node? here = some .directory := by
      rw [node?_put fs ne', if_neg (by simp), directory]
    have proper := proper_of_follow segment found
    cases rest with
    | nil =>
      have there : (fs.put (here ++ [name]) (.file bytes)).node? (here ++ [name]) = some (.file bytes) := by
        rw [node?_put fs ne', if_pos rfl]
      rw [follow_down true later proper there (by simp [Node.IsLink]), follow_nil true there]
    | cons m rest =>
      have same : (fs.put (here ++ name :: m :: rest) (.file bytes)).node? (here ++ [name]) = fs.node? (here ++ [name]) := by
        rw [node?_put fs ne', if_neg (by simp)]
      cases node : fs.node? (here ++ [name]) with
      | none =>
        rw [follow_proper true directory proper, node] at found
        simp at found
      | some n =>
        have notLink := noLinks [name] n (by simp) ⟨m :: rest, rfl⟩ node
        rw [follow_down true directory proper node notLink] at found
        rw [follow_down true later proper (same.trans node) notLink]
        have whole : here ++ name :: m :: rest = here ++ [name] ++ m :: rest := by simp
        rw [whole] at before ⊢
        refine ih (by simp) (fun x hx => segments x (by simp [hx])) (fun ns n some' start node' => ?_) before found
        exact noLinks (name :: ns) n (by simp) (List.cons_prefix_cons.mpr ⟨rfl, start⟩) (by simpa using node')

theorem exists_of_write (sound : fs.Sound) {bytes : List UInt8} (kept : ∀ l, fs.locate true p ≠ .ok (.found l .other))
    (written : fs.write p bytes = .ok fs') :
    ∃ l spot, fs.locate true p = .ok spot ∧ spot.location = l ∧ l ≠ [] ∧
      (fs.node? l = none ∨ ∃ old, fs.node? l = some (.file old)) ∧ fs' = fs.put l (.file bytes) := by
  obtain ⟨spot, found, ne, before, rfl⟩ | ⟨l, n, spot, rfl | link, -⟩ := put_of_write written
  · exact ⟨_, spot, locate_of_writeSpot found, rfl, ne, before, rfl⟩
  · exact absurd (locate_of_writeSpot spot) (kept l)
  · exact absurd link (not_isLink_of_locate sound (locate_of_writeSpot spot))

/-- **A copy is where its path leads**, and nothing else changes. A file that is copied onto itself is emptied, and
what is neither a file nor a directory keeps nothing. -/
theorem copy_eq {source target : Path} (sound : fs.Sound) (reaches : fs.Reaches source t) {bytes : List UInt8}
    (node : fs.node? t = some (.file bytes)) (copied : fs.copy source target = .ok fs') :
    (fs' = fs ∧ ∃ l, fs.locate true target = .ok (.found l .other)) ∨
      ∃ l spot, fs.locate true target = .ok spot ∧ spot.location = l ∧ l ≠ [] ∧
        (fs.node? l = none ∨ ∃ old, fs.node? l = some (.file old)) ∧ fs'.Reaches target l ∧ fs'.Sound ∧
          Extended fs fs' ∧ ∀ k, fs'.node? k = if k = l then some (.file (if l = t then [] else bytes)) else fs.node? k := by
  unfold copy at copied
  have read : fs.read source = .ok bytes := by rw [FileSystem.read, reaches.status node]
  rw [read] at copied
  dsimp only at copied
  split at copied
  · simp at copied
  next emptied written =>
  have sound₁ := sound.write written
  by_cases kept : ∀ l, fs.locate true target ≠ .ok (.found l .other)
  case neg =>
    obtain ⟨l, found⟩ := not_forall.mp kept
    have found := not_not.mp found
    have unchanged : ∀ {bytes : List UInt8} {fs' : FileSystem}, fs.write target bytes = .ok fs' → fs' = fs := by
      intro bytes fs' written
      rcases write_eq written with ⟨k, free | ⟨old, there⟩, -⟩ | ⟨-, -, -, -, same⟩
      · simpa using found.symm.trans (locate_of_writeSpot free)
      · simpa using found.symm.trans (locate_of_writeSpot there)
      · exact same
    obtain rfl := unchanged written
    rw [read] at copied
    exact .inl ⟨unchanged copied, l, found⟩
  obtain ⟨l, spot, found, at', ne, before, rfl⟩ := exists_of_write sound kept written
  have extended := extended_put_file ne before []
  have node₁ : (fs.put l (.file [])).node? t = some (.file (if l = t then [] else bytes)) := by
    rw [node?_put fs ne]
    by_cases same : l = t
    · rw [if_pos same.symm, if_pos same]
    · rw [if_neg (Ne.symm same), if_neg same, node]
  have read₁ : (fs.put l (.file [])).read source = .ok (if l = t then [] else bytes) := by
    rw [FileSystem.read, (reaches.grown extended.toGrown).status node₁]
  rw [read₁] at copied
  dsimp only at copied
  -- The emptied file is found again.
  have same : ∀ spot', (fs.put l (.file [])).locate true target = .ok spot' → spot' = .found l (.file []) :=
    fun _ => locate_put ne before found at'
  obtain ⟨l', spot', found', at'', ne', before', rfl⟩ :=
    exists_of_write sound₁ (fun l' again => by simpa using same _ again) copied
  obtain rfl := same spot' found'
  obtain rfl : l = l' := at''
  refine .inr ⟨l, spot, found, at', ne, before, (reaches_of_locate found').grown (grown_put ne before'),
    sound₁.write copied, extended.trans (extended_put_file ne before' _), fun k => ?_⟩
  rw [node?_put _ ne, node?_put _ ne]
  split <;> rfl

theorem exists_of_copy {source target : Path} (sound : fs.Sound) (reaches : fs.Reaches source t) {bytes : List UInt8}
    (node : fs.node? t = some (.file bytes))
    (apart : ∀ spot, fs.locate true target = .ok spot → spot.location ≠ t ∧ fs.node? spot.location ≠ some .other)
    (copied : fs.copy source target = .ok fs') :
    ∃ l, l ≠ t ∧ fs'.Reaches target l ∧ Grown fs fs' ∧ fs'.Sound ∧
      ∀ k, fs'.node? k = if k = l then some (.file bytes) else fs.node? k := by
  rcases copy_eq sound reaches node copied with
    ⟨-, l, found⟩ | ⟨l, spot, found, rfl, -, -, there, sound', extended, nodes⟩
  · exact absurd (holds_of_locate true found) (apart _ found).2
  · have other := (apart spot found).1
    simp only [if_neg other] at nodes
    exact ⟨spot.location, other, there, extended.toGrown, sound', nodes⟩

end FileSystem

end Files

end ModelDepot
