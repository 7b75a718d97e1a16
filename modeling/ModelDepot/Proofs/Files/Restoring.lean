import ModelDepot.Proofs.Files.Passing

/-! # File systems that are restored

What was added at a free place and below it is gone when that place is cleared, and then the file system is the one
it was. A copy to a path that leads nowhere adds its file at a free place, unless the path steps upward from a
directory that is only made for it.
-/

namespace ModelDepot

namespace Files

namespace FileSystem

variable {fs fs' fs₁ : FileSystem} {d k l : Location} {n : Node} {p : Path}

/-! ## Added and taken away -/

/-- Nothing is at a location or below it. -/
def Vacant (fs : FileSystem) (d : Location) : Prop := ∀ e ∈ fs.entries, ¬ d <+: e.1

theorem Sound.free_below (sound : fs.Sound) (free : fs.node? d = none) (below : d <+: l) : fs.node? l = none := by
  obtain ⟨more, rfl⟩ := below
  by_contra there
  obtain ⟨n, node⟩ := Option.ne_none_iff_exists'.mp there
  by_cases here : more = []
  · simp [here, free] at node
  · simp [sound.above here node] at free

theorem Sound.vacant (sound : fs.Sound) (free : fs.node? d = none) : fs.Vacant d := by
  intro e mem below
  obtain ⟨n, node⟩ := node?_of_mem_entries mem
  simp [sound.free_below free below] at node

/-- All that was added is at a location or below it. -/
def Beside (d : Location) (fs fs' : FileSystem) : Prop :=
  ∃ more, fs'.entries = fs.entries ++ more ∧ (∀ e ∈ more, d <+: e.1) ∧ fs'.workingDirectory = fs.workingDirectory

theorem Beside.refl (d : Location) (fs : FileSystem) : Beside d fs fs :=
  ⟨[], (List.append_nil _).symm, fun _ absent => absurd absent List.not_mem_nil, rfl⟩

theorem Beside.put (beside : Beside d fs fs') (vacant : fs.Vacant d) (below : d <+: l) (n : Node) :
    Beside d fs (fs'.put l n) := by
  obtain ⟨more, entries, inside, working⟩ := beside
  unfold FileSystem.put
  split
  · refine ⟨more.map fun e => if e.1 = l then (l, n) else e, ?_, fun e mem => ?_, working⟩
    · have kept : ∀ e ∈ fs.entries, (if e.1 = l then (l, n) else e) = e := by
        intro e mem
        refine if_neg ?_
        rintro rfl
        exact vacant e mem below
      simp only [entries, List.map_append, List.map_congr_left kept, List.map_id']
    · obtain ⟨e', mem', rfl⟩ := List.mem_map.mp mem
      split
      · exact below
      · exact inside e' mem'
  · refine ⟨more ++ [(l, n)], by simp only [entries, List.append_assoc], fun e mem => ?_, working⟩
    obtain mem | mem := List.mem_append.mp mem
    · exact inside e mem
    · exact List.mem_singleton.mp mem ▸ below

/-- **When the place is cleared**, the file system is the one it was. -/
theorem Beside.erase (beside : Beside d fs fs') (vacant : fs.Vacant d) : fs'.erase d = fs := by
  obtain ⟨more, entries, inside, working⟩ := beside
  have kept : (fs.entries ++ more).filter (fun e => ! d.isPrefixOf e.1) = fs.entries := by
    rw [List.filter_append, List.filter_eq_self.mpr, List.filter_eq_nil_iff.mpr, List.append_nil]
    · intro e mem
      simpa using inside e mem
    · intro e mem
      simpa [← List.isPrefixOf_iff_prefix] using vacant e mem
  rw [FileSystem.erase, entries, kept, working]

/-! ## Steps upward -/

/-- Each step upward of a path leaves a directory to which the names before it lead. -/
def Grounded (fs : FileSystem) (p : Path) : Prop :=
  ∀ front back, splitSlashes p.bytes = front ++ dotDot :: back →
    ∃ left l, Way fs maxLinks (fs.start p) front left l ∧ fs.node? l = some .directory

theorem grounded_of_noUp (noUp : dotDot ∉ splitSlashes p.bytes) : fs.Grounded p := by
  intro front back pieces
  exact absurd (pieces ▸ List.mem_append_right front List.mem_cons_self) noUp

theorem Grounded.grown (grounded : fs.Grounded p) (grown : Grown fs fs') : fs'.Grounded p := by
  intro front back pieces
  obtain ⟨left, l, way, directory⟩ := grounded front back pieces
  refine ⟨left, l, ?_, grown.directory directory⟩
  rw [start, grown.workingDirectory]
  exact way.grown grown

/-- **Directories made for a path make it lead to nothing that was there**, if it led nowhere before and steps upward
from directories only that were there. -/
theorem free_of_made (sound : fs.Sound) (grounded : fs.Grounded p) (absent : fs.present p = false)
    (furnished : Furnished fs fs₁) (passes : ∀ k, fs.node? k = none → fs₁.node? k ≠ none → fs₁.Passes p k) {spot : Spot}
    (found : fs₁.locate true p = .ok spot) : fs.node? spot.location = none := by
  by_cases made : ∃ k, fs.node? k = none ∧ fs₁.node? k ≠ none
  · obtain ⟨k, free, there⟩ := made
    obtain ⟨front, left, ⟨back, whole⟩, way⟩ := passes k free there
    -- After a step upward further on, the directory at `k` would have been there.
    have noUp : dotDot ∉ back := by
      intro up
      obtain ⟨before, after, rfl⟩ := List.append_of_mem up
      obtain ⟨left', l, way', directory⟩ := grounded (front ++ before) after (by rw [← whole, List.append_assoc])
      obtain ⟨mid, there', first, second⟩ := way'.split
      rw [furnished.workingDirectory] at way
      have same : there' = k := (way.unique (first.grown furnished.grown)).2
      rw [← same, second.directory_of_end directory] at free
      cases free
    have noLinks : ∀ l n, k <+: l → fs₁.node? l = some n → ¬ n.IsLink := by
      intro l n below node
      exact furnished.extended.fresh l (sound.free_below free below) n node
    obtain ⟨-, -, followed⟩ := follow_of_locate found
    rw [← whole, way.follow true (.inr rfl)] at followed
    exact sound.free_below free (prefix_of_follow (List.prefix_refl k) noLinks noUp followed)
  · -- Nothing was made, and so the path leads where it led.
    have same : ∀ k, fs₁.node? k = fs.node? k := by
      intro k
      obtain same | ⟨free, new⟩ := furnished.node k
      · exact same
      · exact absurd ⟨k, free, by simp [new]⟩ made
    have back : Grown fs₁ fs :=
      ⟨fun k n node => ⟨n, (same k).symm.trans node, .refl n⟩, furnished.workingDirectory.symm⟩
    cases spot with
    | free l => exact (same l).symm.trans (holds_of_locate true found).2
    | found l n =>
      have node : fs.node? l = some n := (same l).symm.trans (holds_of_locate true found)
      rw [present, ((reaches_of_locate found).grown back).status node] at absent
      cases absent

end FileSystem

end Files

end ModelDepot
