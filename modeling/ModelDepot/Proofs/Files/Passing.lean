import ModelDepot.Proofs.Files.Beginnings
import ModelDepot.Proofs.Files.Making
import ModelDepot.Proofs.Files.Places

/-! # What a path passes

Whatever is made or written for a path is on its way. If the path is a few names after a directory, and no link is
met there, then only what has these names can be new or other, and a path to any other name leads where it led.
-/

namespace ModelDepot

namespace Files

theorem Path.heads_parent (p : Path) : (p.parent?.getD p).Heads p := by
  have heads : p.Heads p := by
    by_cases empty : p.bytes = []
    · exact .inl empty
    · exact .inr (.inr (.refl empty))
  cases parent : p.parent? with
  | none => exact heads
  | some q => exact heads.parent? parent

namespace FileSystem

variable {fs fs' fs'' : FileSystem} {links left : Nat} {here k l : Location} {names front back : List Name} {p q : Path}

/-! ## Ways in two parts -/

theorem Way.split (way : Way fs links here (front ++ back) left l) :
    ∃ mid there, Way fs links here front mid there ∧ Way fs mid there back left l := by
  generalize whole : front ++ back = all at way
  induction way generalizing front with
  | stay links here =>
    obtain ⟨rfl, rfl⟩ := List.append_eq_nil_iff.mp whole
    exact ⟨links, here, .stay _ _, .stay _ _⟩
  | @idle links left here l name rest directory idle on ih =>
    cases front with
    | nil =>
      obtain rfl : back = _ := whole
      exact ⟨_, _, .stay _ _, .idle directory idle on⟩
    | cons first others =>
      obtain ⟨rfl, rfl⟩ := List.cons.inj whole
      obtain ⟨mid, there, before, after⟩ := ih rfl
      exact ⟨mid, there, .idle directory idle before, after⟩
  | @up links left here l rest directory on ih =>
    cases front with
    | nil =>
      obtain rfl : back = _ := whole
      exact ⟨_, _, .stay _ _, .up directory on⟩
    | cons first others =>
      obtain ⟨rfl, rfl⟩ := List.cons.inj whole
      obtain ⟨mid, there, before, after⟩ := ih rfl
      exact ⟨mid, there, .up directory before, after⟩
  | @down links left here l name rest n directory proper node notLink on ih =>
    cases front with
    | nil =>
      obtain rfl : back = _ := whole
      exact ⟨_, _, .stay _ _, .down directory proper node notLink on⟩
    | cons first others =>
      obtain ⟨rfl, rfl⟩ := List.cons.inj whole
      obtain ⟨mid, there, before, after⟩ := ih rfl
      exact ⟨mid, there, .down directory proper node notLink before, after⟩
  | @link links left here l name rest target directory proper node on ih =>
    cases front with
    | nil =>
      obtain rfl : back = _ := whole
      exact ⟨_, _, .stay _ _, .link directory proper node on⟩
    | cons first others =>
      obtain ⟨rfl, rfl⟩ := List.cons.inj whole
      obtain ⟨mid, there, before, after⟩ := ih (List.append_assoc _ _ _)
      exact ⟨mid, there, .link directory proper node before, after⟩

theorem Way.directory (way : Way fs links here names left l) (ne : names ≠ []) : fs.node? here = some .directory := by
  cases way with
  | stay => exact absurd rfl ne
  | idle directory | up directory | down directory | link directory => exact directory

theorem Way.directory_of_end (way : Way fs links here names left l) (directory : fs.node? l = some .directory) :
    fs.node? here = some .directory := by
  by_cases none' : names = []
  · subst none'
    cases way
    exact directory
  · exact way.directory none'

theorem Way.straight (way : Way fs links here names left l) (segments : ∀ n ∈ names, Segment n)
    (noLinks : ∀ ns n, ns ≠ [] → ns <+: names → fs.node? (here ++ ns) = some n → ¬ n.IsLink) : l = here ++ names := by
  induction way with
  | stay => simp
  | @idle _ _ _ _ name rest directory idle =>
    have segment := segments name List.mem_cons_self
    exact absurd idle (not_or.mpr ⟨segment.ne_nil, segment.ne_dot⟩)
  | up => exact absurd rfl (segments dotDot List.mem_cons_self).ne_dotDot
  | @down _ _ here _ name rest n directory proper node notLink on ih =>
    rw [ih (fun m hm => segments m (List.mem_cons_of_mem _ hm)) fun ns n ne before => by
      simpa using noLinks (name :: ns) n (by simp) (List.cons_prefix_cons.mpr ⟨rfl, before⟩)]
    simp
  | @link _ _ here _ name rest target directory proper node =>
    exact absurd ⟨target, rfl⟩ (noLinks [name] _ (by simp) ⟨rest, rfl⟩ node)

theorem Passes.below (passes : fs'.Passes (p.below names) k) (grown : Grown fs fs') (leads : fs.Leads p l)
    (directory : fs.node? l = some .directory) (some' : names ≠ []) (segments : ∀ n ∈ names, Segment n)
    (noLinks : ∀ ns n, ns ≠ [] → ns <+: names → fs'.node? (l ++ ns) = some n → ¬ n.IsLink) :
    fs.node? k = some .directory ∨ ∃ ns, ns <+: names ∧ k = l ++ ns := by
  obtain ⟨front, left, start, way⟩ := passes
  obtain ⟨pieces, spelled, before⟩ := p.splitSlashes_below some' segments
  obtain ⟨left₀, way₀⟩ := leads.way_of_pieces before
  rw [spelled] at start
  rw [p.isAbsolute_below names segments, grown.workingDirectory] at way
  -- What was followed ends on the way to the directory, or goes on from there with some of the names.
  obtain short | ⟨ns, rfl⟩ := List.prefix_or_prefix_of_prefix start (List.prefix_append pieces names)
  · obtain ⟨rest, rfl⟩ := short
    obtain ⟨mid, there, first, second⟩ := way₀.split
    obtain ⟨rfl, rfl⟩ := (first.grown grown).unique way
    exact .inl (second.directory_of_end directory)
  · obtain ⟨mid, there, first, second⟩ := way.split
    obtain ⟨rfl, rfl⟩ := (way₀.grown grown).unique first
    have inside : ns <+: names := (List.prefix_append_right_inj pieces).mp start
    exact .inr ⟨ns, inside, second.straight (fun n hn => segments n (inside.subset hn))
      fun ms n ne before => noLinks ms n ne (before.trans inside)⟩

theorem Leads.eq_below (leads : fs.Leads p l) (directory : fs.node? l = some .directory) (some' : names ≠ [])
    (segments : ∀ n ∈ names, Segment n)
    (noLinks : ∀ ns n, ns ≠ [] → ns <+: names → fs.node? (l ++ ns) = some n → ¬ n.IsLink)
    (leads' : fs.Leads (p.below names) k) : k = l ++ names := by
  obtain ⟨left, way⟩ := leads'
  obtain ⟨pieces, spelled, before⟩ := p.splitSlashes_below some' segments
  obtain ⟨left₀, way₀⟩ := leads.way_of_pieces before
  rw [spelled, p.isAbsolute_below names segments] at way
  obtain ⟨mid, there, first, second⟩ := way.split
  obtain ⟨rfl, rfl⟩ := way₀.unique first
  exact second.straight segments noLinks

/-! ## Requests for a path -/

/-- Everything is still there, no link was added, and what is new or other is passed by a path. -/
structure Passing (p : Path) (fs fs' : FileSystem) : Prop extends Extended fs fs' where
  changed : ∀ k, fs'.node? k = fs.node? k ∨ fs'.Passes p k

theorem Passing.refl (p : Path) (fs : FileSystem) : Passing p fs fs := ⟨.refl fs, fun _ => .inl rfl⟩

theorem Passing.trans (h : Passing p fs fs') (h' : Passing p fs' fs'') : Passing p fs fs'' where
  toExtended := h.toExtended.trans h'.toExtended
  changed := by
    intro k
    obtain same' | passes := h'.changed k
    · exact (h.changed k).imp same'.trans fun passes => passes.grown h'.toGrown
    · exact .inr passes

theorem passing_makeDirectories (heads : q.Heads p) : Passing p fs (fs.makeDirectories q).2 where
  toExtended := (furnished_makeDirectories fs q).extended
  changed := by
    intro k
    obtain same | ⟨free, made⟩ := (furnished_makeDirectories fs q).node k
    · exact .inl same
    · exact .inr (passes_of_makeDirectories heads free (by simp [made]))

theorem Leads.passes (leads : fs.Leads p k) : fs.Passes p k := by
  obtain ⟨left, way⟩ := leads
  exact ⟨_, left, List.prefix_refl _, way⟩

theorem passing_write {bytes : List UInt8} (written : fs.write p bytes = .ok fs') : Passing p fs fs' where
  toExtended := extended_write written
  changed := by
    intro k
    have grown := (extended_write written).toGrown
    rcases write_eq written with ⟨l, spot, rfl⟩ | ⟨-, -, -, -, rfl⟩
    · by_cases here : k = l
      · subst here
        obtain free | ⟨old, found⟩ := spot
        · obtain ⟨ne, nothing⟩ := holds_of_writeSpot free
          exact .inr (leads_of_write written nothing (by simp [node?_put fs ne])).passes
        · exact .inr ((reaches_of_locate (locate_of_writeSpot found)).leads.grown grown).passes
      · have ne : l ≠ [] := by
          rintro rfl
          obtain free | ⟨old, found⟩ := spot
          · exact (holds_of_writeSpot free).1 rfl
          · simpa [node?, Holds] using holds_of_writeSpot found
        exact .inl (by rw [node?_put fs ne, if_neg here])
    · exact .inl rfl

/-- **What is done for a path of names after a directory** concerns only what has these names. -/
theorem Passing.node?_eq (passing : Passing (p.below names) fs fs') (leads : fs.Leads p l)
    (directory : fs.node? l = some .directory) (some' : names ≠ []) (segments : ∀ n ∈ names, Segment n)
    (noLinks : ∀ ns n, ns ≠ [] → ns <+: names → fs.node? (l ++ ns) = some n → ¬ n.IsLink)
    (off : ∀ ns, ns <+: names → k ≠ l ++ ns) : fs'.node? k = fs.node? k := by
  obtain same | passes := passing.changed k
  · exact same
  have noLinks' : ∀ ns n, ns ≠ [] → ns <+: names → fs'.node? (l ++ ns) = some n → ¬ n.IsLink := fun ns n ne before =>
    passing.toExtended.notLink (fun m => noLinks ns m ne before) n
  obtain there | ⟨ns, before, here⟩ := passes.below passing.toGrown leads directory some' segments noLinks'
  · exact (passing.toGrown.directory there).trans there.symm
  · exact absurd here (off ns before)

/-! ## Paths to other names -/

theorem follow_eq {last : Bool} (links links' : Nat) (segments : ∀ n ∈ names, Segment n)
    (same : ∀ ns, ns <+: names → fs'.node? (here ++ ns) = fs.node? (here ++ ns))
    (noLinks : ∀ ns n, ns ≠ [] → ns <+: names → fs.node? (here ++ ns) = some n → ¬ n.IsLink) :
    fs'.follow last links' here names = fs.follow last links here names := by
  -- The numbers of links that may be followed do not matter, since none is met.
  induction names generalizing here with
  | nil =>
    have end' := same [] (List.prefix_refl _)
    rw [List.append_nil] at end'
    rw [follow.eq_def, follow.eq_def]
    simp only [end']
  | cons name rest ih =>
    have start := same [] List.nil_prefix
    have one := same [name] ⟨rest, rfl⟩
    have noLink : ∀ n, fs.node? (here ++ [name]) = some n → ¬ n.IsLink := fun n =>
      noLinks [name] n (by simp) ⟨rest, rfl⟩
    rw [List.append_nil] at start
    by_cases directory : fs.node? here = some .directory
    · have segment := segments name List.mem_cons_self
      have step : fs'.follow last links' (here ++ [name]) rest = fs.follow last links (here ++ [name]) rest :=
        ih (fun m hm => segments m (List.mem_cons_of_mem _ hm))
          (fun ns before => by simpa using same (name :: ns) (List.cons_prefix_cons.mpr ⟨rfl, before⟩))
          (fun ns n ne before => by
            simpa using noLinks (name :: ns) n (by simp) (List.cons_prefix_cons.mpr ⟨rfl, before⟩))
      rw [follow_segment directory segment noLink, follow_segment (start.trans directory) segment (one ▸ noLink), one,
        step]
    · rw [follow.eq_def, follow.eq_def]
      simp [start, directory]

theorem status_below_eq (grown : Grown fs fs') (leads : fs.Leads p l) (some' : names ≠ [])
    (segments : ∀ n ∈ names, Segment n) (same : ∀ ns, ns <+: names → fs'.node? (l ++ ns) = fs.node? (l ++ ns))
    (noLinks : ∀ ns n, ns ≠ [] → ns <+: names → fs.node? (l ++ ns) = some n → ¬ n.IsLink) :
    fs'.status (p.below names) = fs.status (p.below names) := by
  obtain ⟨left, before⟩ := leads.locate_below true some' segments
  obtain ⟨left', after⟩ := (leads.grown grown).locate_below true some' segments
  rw [status, status, before, after]
  rw [follow_eq left left' segments same noLinks]

end FileSystem

end Files

end ModelDepot
