import Mathlib.Data.List.TakeWhile
import ModelDepot.Proofs.Files.Places
import ModelDepot.Proofs.Files.Straight

/-! # Directories on the way of a path

The paths above a path begin as it does. So the directories that are made for a path are on its way: a beginning
of it leads there. If the path has no step upward, they are above the place where it leads.
-/

namespace ModelDepot

namespace Files

/-! ## Beginnings of paths -/

namespace Path

variable {p q r : Path}

/-- The pieces of a path are the first ones of another. -/
structure Begins (q p : Path) : Prop where
  ne_nil : q.bytes ≠ []
  pieces : splitSlashes q.bytes <+: splitSlashes p.bytes

theorem Begins.refl (ne : p.bytes ≠ []) : p.Begins p := ⟨ne, List.prefix_refl _⟩

theorem Begins.trans (h : r.Begins q) (h' : q.Begins p) : r.Begins p := ⟨h.ne_nil, h.pieces.trans h'.pieces⟩

theorem isAbsolute_eq {first : Name} {rest : List Name} (ne : p.bytes ≠ [])
    (spelled : splitSlashes p.bytes = first :: rest) : p.isAbsolute = decide (first = []) := by
  obtain ⟨b, bs, bytes⟩ := List.exists_cons_of_ne_nil ne
  have start : p.isAbsolute = decide (b = slash) := Bool.eq_iff_iff.mpr (by simp [isAbsolute, bytes])
  rw [bytes, splitSlashes] at spelled
  rw [start]
  by_cases slashed : b = slash
  · rw [if_pos slashed] at spelled
    rw [← (List.cons.inj spelled).1]
    simpa using slashed
  · obtain ⟨piece, pieces, more⟩ := List.exists_cons_of_ne_nil (splitSlashes_ne_nil bs)
    rw [if_neg slashed, more] at spelled
    rw [← (List.cons.inj spelled).1]
    simpa using slashed

theorem Begins.isAbsolute (begins : q.Begins p) : q.isAbsolute = p.isAbsolute := by
  obtain ⟨first, rest, spelled⟩ := List.exists_cons_of_ne_nil (splitSlashes_ne_nil q.bytes)
  obtain ⟨more, whole⟩ := begins.pieces
  rw [spelled, List.cons_append] at whole
  have ne : p.bytes ≠ [] := by
    intro empty
    rw [empty, show splitSlashes [] = [[]] from rfl] at whole
    obtain ⟨rfl, none'⟩ := List.cons.inj whole
    obtain ⟨rfl, -⟩ := List.append_eq_nil_iff.mp none'
    have joined := joinSlashes_splitSlashes q.bytes
    rw [spelled] at joined
    exact begins.ne_nil joined.symm
  rw [isAbsolute_eq begins.ne_nil spelled, isAbsolute_eq ne whole.symm]

/-! ## Slashes at the end -/

theorem begins_unslashed (ne : p.bytes ≠ []) : (FileSystem.unslashed p).1.Begins p := by
  unfold FileSystem.unslashed
  dsimp only
  split
  · exact .refl ne
  next some' =>
  refine ⟨some', ?_⟩
  have ending : p.bytes = (p.bytes.reverse.dropWhile (· == slash)).reverse ++
      (p.bytes.reverse.takeWhile (· == slash)).reverse := by
    rw [← List.reverse_append, List.takeWhile_append_dropWhile, List.reverse_reverse]
  cases slashes : (p.bytes.reverse.takeWhile (· == slash)).reverse with
  | nil =>
    rw [slashes, List.append_nil] at ending
    exact ⟨[], by rw [List.append_nil, ← ending]⟩
  | cons b rest =>
    have slashed : b = slash := by
      have mem : b ∈ p.bytes.reverse.takeWhile (· == slash) := by
        rw [← List.mem_reverse, slashes]
        exact List.mem_cons_self
      simpa using List.mem_takeWhile_imp mem
    rw [slashes, slashed] at ending
    generalize (p.bytes.reverse.dropWhile (· == slash)).reverse = kept at ending
    rw [ending, splitSlashes_append]
    exact List.prefix_append _ _

/-! ## Paths above -/

theorem trimIdle_start (pieces : List Name) : trimIdle pieces <+: pieces := by
  have := List.reverse_prefix.mpr (List.dropWhile_suffix isIdle (l := pieces.reverse))
  rwa [List.reverse_reverse] at this

theorem parent?_cases (h : p.parent? = some q) : q.bytes = [] ∨ q = root ∨ q.Begins p := by
  obtain ⟨first, rest, spelled⟩ := List.exists_cons_of_ne_nil (splitSlashes_ne_nil p.bytes)
  have noSlash : ∀ n ∈ first :: rest, slash ∉ n := by
    rw [← spelled]
    exact fun n => noSlash_of_mem_splitSlashes
  have begins : ∀ pieces, pieces <+: first :: rest → joinSlashes pieces ≠ [] →
      Begins ⟨joinSlashes pieces⟩ p := by
    intro pieces start ne
    have some' : pieces ≠ [] := by
      rintro rfl
      exact ne rfl
    refine ⟨ne, ?_⟩
    rw [spelled, splitSlashes_joinSlashes some' fun n hn => noSlash n (start.subset hn)]
    exact start
  -- What is kept of the pieces after the start.
  have above : ∀ {pieces kept : List Name}, trimIdle pieces = kept → trimIdle kept.dropLast <+: pieces := by
    rintro pieces _ rfl
    exact (trimIdle_start _).trans ((List.dropLast_prefix _).trans (trimIdle_start _))
  unfold parent? parts at h
  simp only [spelled] at h
  by_cases absolute : first = []
  · rw [if_pos absolute] at h
    by_cases bare : rest = []
    · simp [bare, trimIdle, dot] at h
    rw [if_neg (by simpa using bare)] at h
    split at h
    · simp [dot, slash] at h
    next n others kept =>
    obtain rfl := Option.some.inj h
    have start := above kept
    cases shorter : trimIdle (n :: others).dropLast with
    | nil => exact .inr (.inl rfl)
    | cons m more =>
      rw [shorter] at start
      refine .inr (.inr ?_)
      simpa [ofParts, joinSlashes] using
        begins ([] :: m :: more) (List.cons_prefix_cons.mpr ⟨absolute.symm, start⟩) (by simp [joinSlashes])
  rw [if_neg absolute] at h
  by_cases dotted : first = dot
  · rw [if_pos dotted] at h
    split at h
    · exact .inl (congrArg Path.bytes (Option.some.inj h).symm)
    next n others kept =>
    obtain rfl := Option.some.inj h
    refine .inr (.inr ?_)
    have start := above kept
    generalize trimIdle (n :: others).dropLast = front at start
    simpa [ofParts, dot, slash] using
      begins (dot :: front) (List.cons_prefix_cons.mpr ⟨dotted.symm, start⟩) (by cases front <;> simp [joinSlashes, dot])
  · rw [if_neg dotted] at h
    split at h
    · simp [dot] at h
    next n others kept =>
    obtain rfl := Option.some.inj h
    have start := above kept
    generalize trimIdle (n :: others).dropLast = front at start
    by_cases empty : joinSlashes front = []
    · exact .inl (by simpa [ofParts] using empty)
    · exact .inr (.inr (by simpa [ofParts] using begins _ start empty))

/-- A path that directories are made for: nothing at all, the root, or one that begins as `p` does. -/
def Heads (q p : Path) : Prop := q.bytes = [] ∨ q = root ∨ q.Begins p

theorem Heads.parent? (heads : q.Heads p) (h : q.parent? = some r) : r.Heads p := by
  rcases heads with empty | rfl | begins
  · obtain rfl : q = ⟨[]⟩ := by
      cases q
      simpa using empty
    simp [Path.parent?, parts, splitSlashes, trimIdle, dot] at h
  · revert h
    simp [show root.parent? = none by decide]
  · rcases parent?_cases h with empty | rfl | begins'
    · exact .inl empty
    · exact .inr (.inl rfl)
    · exact .inr (.inr (begins'.trans begins))

theorem Heads.lineageFrom (heads : q.Heads p) (k : Nat) : ∀ r ∈ lineageFrom k q, r.Heads p := by
  induction k generalizing q with
  | zero => simp [Path.lineageFrom]
  | succ k ih =>
    intro r hr
    rw [Path.lineageFrom] at hr
    obtain rfl | hr := List.mem_cons.mp hr
    · exact heads
    · split at hr
      · next parent => exact ih (heads.parent? parent) r hr
      · simp at hr

end Path

/-! ## What is made on the way -/

namespace FileSystem

variable {fs fs' : FileSystem} {links left : Nat} {here k l : Location} {names : List Name} {p q : Path} {last : Bool}

/-- The first pieces of a path lead to a location. -/
def Passes (fs : FileSystem) (p : Path) (k : Location) : Prop :=
  ∃ front left, front <+: splitSlashes p.bytes ∧
    Way fs maxLinks (if p.isAbsolute then [] else fs.workingDirectory) front left k

theorem Passes.grown (passes : fs.Passes p k) (grown : Grown fs fs') : fs'.Passes p k := by
  obtain ⟨front, left, start, way⟩ := passes
  refine ⟨front, left, start, ?_⟩
  rw [grown.workingDirectory]
  exact way.grown grown

theorem way_of_free (grown : Grown fs fs') {n : Node} (made : fs'.node? k = some n) (notLink : ¬ n.IsLink)
    (free : fs.follow last links here names = .ok (.free k)) : ∃ left, Way fs' links here names left k := by
  fun_induction FileSystem.follow fs last links here names with
  | case4 links here name rest directory idle ih =>
    obtain ⟨left, way⟩ := ih free
    exact ⟨left, .idle (grown.directory (Decidable.not_not.mp directory)) idle way⟩
  | case5 links here rest directory idle ih =>
    obtain ⟨left, way⟩ := ih free
    exact ⟨left, .up (grown.directory (Decidable.not_not.mp directory)) way⟩
  | case7 links here name directory idle up short place nothing =>
    obtain rfl : place = k := by simpa using free
    have proper : Proper name := proper_of_busy idle up short
    exact ⟨links, .down (grown.directory (Decidable.not_not.mp directory)) proper made notLink (.stay _ _)⟩
  | case11 here name rest directory idle up short place target node stays links ih =>
    obtain ⟨left, way⟩ := ih free
    have proper : Proper name := proper_of_busy idle up short
    obtain ⟨n', node', like⟩ := grown.node _ _ node
    rw [like.eq_of_link] at node'
    exact ⟨left, .link (grown.directory (Decidable.not_not.mp directory)) proper node' way⟩
  | case12 links here name rest directory idle up short place m notLink node ih =>
    obtain ⟨left, way⟩ := ih free
    have proper : Proper name := proper_of_busy idle up short
    obtain ⟨n', node', like⟩ := grown.node _ _ node
    exact ⟨left, .down (grown.directory (Decidable.not_not.mp directory)) proper node'
      (mt like.isLink_iff.mp (not_exists.mpr notLink)) way⟩
  | _ => simp at free

theorem passes_of_makeDirectory (heads : q.Heads p) (made : fs.makeDirectory q = .ok fs')
    (nothing : fs.node? k = none) (there : fs'.node? k ≠ none) : fs'.Passes p k := by
  have furnished := furnished_makeDirectory made
  unfold makeDirectory at made
  split at made
  · simp at made
  · next l free =>
    cases made
    obtain ⟨ne, -⟩ := holds_of_locate false free
    have new := node?_put fs ne .directory
    obtain rfl : k = l := by
      by_contra other
      rw [new, if_neg other] at there
      exact there nothing
    have begins : q.Begins p := by
      rcases heads with empty | rfl | begins
      · have nowhere := (follow_of_locate free).1
        simp [unslashed, empty] at nowhere
      · rw [show unslashed Path.root = (Path.root, false) by decide] at free
        obtain ⟨-, -, free⟩ := follow_of_locate free
        rw [show splitSlashes Path.root.bytes = [[], []] by decide, show Path.root.isAbsolute = true by decide,
          if_pos rfl, follow_idle false (if_pos rfl) (.inl rfl), follow_idle false (if_pos rfl) (.inl rfl),
          follow_nil false (if_pos rfl)] at free
        simp at free
      · exact begins
    have begins := (Path.begins_unslashed begins.ne_nil).trans begins
    obtain ⟨-, -, free⟩ := follow_of_locate free
    obtain ⟨left, way⟩ := way_of_free furnished.grown (by rw [new, if_pos rfl]) (by simp [Node.IsLink]) free
    rw [begins.isAbsolute] at way
    exact ⟨_, left, begins.pieces, way⟩
  · simp at made

theorem passes_of_makeLineage (paths : List Path) (heads : ∀ q ∈ paths, q.Heads p)
    (nothing : fs.node? k = none) (there : (fs.makeLineage paths).2.node? k ≠ none) :
    (fs.makeLineage paths).2.Passes p k := by
  refine makeLineage_keeps (I := fun fs' => fs'.node? k ≠ none → fs'.Passes p k) paths
    (fun q hq fs₁ fs₂ before made there => ?_) (absurd nothing) there
  -- Either the directory was made last, or it was there by then.
  cases between : fs₁.node? k with
  | none => exact passes_of_makeDirectory (heads q hq) made between there
  | some n => exact (before (by simp [between])).grown (furnished_makeDirectory made).grown

/-- **The directories that are made for a path, or for its parent, are on its way.** -/
theorem passes_of_makeDirectories (heads : q.Heads p) (nothing : fs.node? k = none)
    (there : (fs.makeDirectories q).2.node? k ≠ none) : (fs.makeDirectories q).2.Passes p k :=
  passes_of_makeLineage _ (heads.lineageFrom _) nothing there

/-! ## What is written -/

theorem leads_of_write {bytes : List UInt8} (written : fs.write p bytes = .ok fs') (nothing : fs.node? k = none)
    (there : fs'.node? k ≠ none) : fs'.Leads p k := by
  have grown := (extended_write written).toGrown
  rcases write_eq written with ⟨l, spot, rfl⟩ | ⟨-, -, -, -, rfl⟩
  · have ne : l ≠ [] := by
      rcases spot with free | ⟨old, found⟩
      · exact (holds_of_writeSpot free).1
      · rintro rfl
        simpa [node?, Holds] using holds_of_writeSpot found
    have nodes := node?_put fs ne (.file bytes)
    obtain rfl : k = l := by
      by_contra other
      rw [nodes, if_neg other] at there
      exact there nothing
    rcases spot with free | ⟨old, found⟩
    · obtain ⟨-, -, free⟩ := follow_of_locate (locate_of_writeSpot free)
      exact way_of_free grown (by rw [nodes, if_pos rfl]) (by simp [Node.IsLink]) free
    · have node : fs.node? k = some (.file old) := holds_of_writeSpot found
      simp [node] at nothing
  · exact absurd nothing there

/-- **What a copy adds is where its path leads.** -/
theorem leads_of_copy {source : Path} (copied : fs.copy source p = .ok fs') (nothing : fs.node? k = none)
    (there : fs'.node? k ≠ none) : fs'.Leads p k := by
  refine copy_keeps (I := fun fs' => fs'.node? k ≠ none → fs'.Leads p k) copied
    (fun fs₁ fs₂ _ before written there => ?_) (absurd nothing) there
  cases between : fs₁.node? k with
  | none => exact leads_of_write written between there
  | some n => exact (before (by simp [between])).grown (extended_write written).toGrown

/-! ## Paths of locations -/

theorem Passes.leads {place : Location} (proper : place.Proper) (passes : fs.Passes place.path k) :
    ∃ l : Location, l <+: place ∧ fs.Leads l.path k := by
  obtain ⟨front, left, start, way⟩ := passes
  have absolute : place.path.isAbsolute = true := by simp [Location.path, Path.isAbsolute]
  rw [absolute, if_pos rfl] at way
  have leads : ∀ l : Location, l <+: place → Way fs maxLinks [] l left k →
      ∃ l : Location, l <+: place ∧ fs.Leads l.path k :=
    fun l before on => ⟨l, before, on.leads_path fun n hn => proper n (before.subset hn)⟩
  rw [Location.path, splitSlashes, if_pos rfl] at start
  cases front with
  | nil => exact leads [] (List.nil_prefix) way
  | cons first rest =>
    obtain ⟨rfl, more⟩ := List.cons_prefix_cons.mp start
    have on : Way fs maxLinks [] rest left k := by
      cases way with
      | idle _ _ on => exact on
      | down _ proper => exact absurd rfl proper.ne_nil
      | link _ proper => exact absurd rfl proper.ne_nil
    by_cases ne : place = []
    · subst ne
      cases rest with
      | nil => exact leads [] List.nil_prefix on
      | cons m others =>
        obtain ⟨rfl, last⟩ := List.cons_prefix_cons.mp (show m :: others <+: [[]] from more)
        obtain rfl := List.prefix_nil.mp last
        refine leads [] List.nil_prefix ?_
        cases on with
        | idle _ _ on => exact on
        | down _ proper => exact absurd rfl proper.ne_nil
        | link _ proper => exact absurd rfl proper.ne_nil
    · rw [splitSlashes_joinSlashes ne fun n hn => (proper n hn).noSlash] at more
      exact leads rest more on

theorem leads_of_makeDirectories {place : Location} (proper : place.Proper) (nothing : fs.node? k = none)
    (there : (fs.makeDirectories place.path).2.node? k ≠ none) :
    ∃ l : Location, l <+: place ∧ (fs.makeDirectories place.path).2.Leads l.path k := by
  have heads : place.path.Heads place.path := .inr (.inr (.refl (by simp [Location.path])))
  exact (passes_of_makeDirectories heads nothing there).leads proper

/-! ## The directory that is made -/

section

variable {place : Location} (proper : place.Proper)

include proper

theorem locate_of_makeDirectory (made : fs.makeDirectory place.path = .ok fs') :
    ∃ l, fs.locate false place.path = .ok (.free l) ∧ fs' = fs.put l .directory := by
  unfold makeDirectory at made
  rw [Location.unslashed_path proper] at made
  split at made
  · simp at made
  · next l free => exact ⟨l, free, (Except.ok.inj made).symm⟩
  · simp at made

theorem isDirectory_of_makeDirectory (made : fs.makeDirectory place.path = .ok fs') : fs'.isDirectory place.path = true := by
  have grown := (furnished_makeDirectory made).grown
  obtain ⟨l, free, rfl⟩ := locate_of_makeDirectory proper made
  have new : (fs.put l .directory).node? l = some .directory := by
    rw [node?_put fs (holds_of_locate false free).1, if_pos rfl]
  obtain ⟨some', fine, followed⟩ := follow_of_locate free
  have reaches : (fs.put l .directory).Reaches place.path l :=
    ⟨fine, some', way_of_free grown new (by simp [Node.IsLink]) followed⟩
  exact isDirectory_iff.mpr ⟨l, reaches.status new⟩

theorem isDirectory_of_makeDirectories (made : fs.makeDirectories place.path = (.ok (), fs')) :
    fs'.isDirectory place.path = true := by
  have some' : place.path.bytes ≠ [] := by simp [Location.path]
  obtain ⟨parents, lineage⟩ : ∃ parents, place.path.lineage = place.path :: parents := ⟨_, rfl⟩
  rw [makeDirectories, lineage, makeLineage, if_neg some'] at made
  split at made
  · next fs₁ first =>
    obtain rfl : fs₁ = fs' := (Prod.mk.inj made).2
    exact isDirectory_of_makeDirectory proper first
  · split at made
    · simp at made
    next fs₁ above =>
    split at made
    · next fs₂ second =>
      obtain rfl : fs₂ = fs' := (Prod.mk.inj made).2
      exact isDirectory_of_makeDirectory proper second
    · split at made
      · next there =>
        obtain rfl : fs₁ = fs' := (Prod.mk.inj made).2
        exact there
      · simp at made
  · split at made
    · next there =>
      obtain rfl : fs = fs' := (Prod.mk.inj made).2
      exact there
    · simp at made

theorem directory_of_makeDirectories (noLinks : ∀ l n, l <+: place → fs.node? l = some n → ¬ n.IsLink)
    (made : fs.makeDirectories place.path = (.ok (), fs')) : fs'.node? place = some .directory := by
  obtain ⟨l, found⟩ := isDirectory_iff.mp (isDirectory_of_makeDirectories proper made)
  have located := locate_of_status found
  have furnished := furnished_makeDirectories fs place.path
  rw [made] at furnished
  have noLinks' := fun l n before => furnished.extended.notLink (fun m => noLinks l m before) n
  obtain rfl : l = place := location_of_locate proper noLinks' located
  exact holds_of_locate _ located

end

/-! ## Above the place where the path leads -/

theorem prefix_of_follow {spot : Spot} (inside : k <+: here)
    (noLinks : ∀ l n, k <+: l → fs.node? l = some n → ¬ n.IsLink) (noUp : dotDot ∉ names)
    (found : fs.follow last links here names = .ok spot) : k <+: spot.location := by
  fun_induction FileSystem.follow fs last links here names with
  | case1 links here n node =>
    obtain rfl := Except.ok.inj found
    exact inside
  | case4 links here name rest directory idle ih =>
    exact ih inside (fun mem => noUp (List.mem_cons_of_mem _ mem)) found
  | case5 => exact absurd List.mem_cons_self noUp
  | case7 links here name directory idle up short place nothing =>
    obtain rfl := Except.ok.inj found
    exact inside.trans (List.prefix_append here [name])
  | case9 links here name rest directory idle up short place target node stays =>
    obtain rfl := Except.ok.inj found
    exact inside.trans (List.prefix_append here [name])
  | case11 here name rest directory idle up short place target node stays links ih =>
    exact absurd ⟨target, rfl⟩ (noLinks place _ (inside.trans (List.prefix_append here [name])) node)
  | case12 links here name rest directory idle up short place m notLink node ih =>
    exact ih (inside.trans (List.prefix_append here [name])) (fun mem => noUp (List.mem_cons_of_mem _ mem)) found
  | _ => simp at found

theorem Passes.above (passes : fs.Passes p k) (noLinks : ∀ l n, k <+: l → fs.node? l = some n → ¬ n.IsLink)
    (noUp : dotDot ∉ splitSlashes p.bytes) {spot : Spot} (found : fs.locate true p = .ok spot) : k <+: spot.location := by
  obtain ⟨front, left, ⟨back, whole⟩, way⟩ := passes
  obtain ⟨-, -, found⟩ := follow_of_locate found
  rw [← whole, way.follow true (.inr rfl)] at found
  refine prefix_of_follow (List.prefix_refl k) noLinks (fun mem => noUp ?_) found
  rw [← whole]
  exact List.mem_append_right front mem

end FileSystem

end Files

end ModelDepot
