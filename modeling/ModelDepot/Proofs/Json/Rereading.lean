import ModelDepot.Proofs.Json.Copies
import ModelDepot.Proofs.Json.Scaling

/-! # Values are read again

A value whose whole numbers have 64 bits is read as a value of that kind, if it does not nest too deep. What is read
has the same keys and nests no deeper, so that it can be written and read again.
-/

namespace ModelDepot

namespace Json

namespace Members

/-- Members with the same keys, and with values that nest no deeper. -/
def Within (ms more : Members) : Prop := List.Forall₂ (fun m n => m.1 = n.1 ∧ m.2.depth ≤ n.2.depth) ms more

theorem Within.refl (ms : Members) : Within ms ms := List.forall₂_same.mpr fun _ _ => ⟨rfl, le_refl _⟩

theorem Within.trans {ms ms' ms'' : Members} (h : Within ms ms') (h' : Within ms' ms'') : Within ms ms'' := by
  induction h generalizing ms'' with
  | nil => exact h'
  | cons first _ ih =>
    cases h' with
    | cons first' rest' => exact .cons ⟨first.1.trans first'.1, first.2.trans first'.2⟩ (ih rest')

theorem Within.insert {ms ms' : Members} (h : Within ms ms') (k : String) (v : Json) :
    Within (Members.insert k v ms) (Members.insert k v ms') := by
  induction h with
  | nil => exact Within.refl _
  | @cons m n _ _ first rest ih =>
    obtain ⟨l, x⟩ := m
    obtain ⟨l', y⟩ := n
    obtain ⟨rfl, less⟩ := first
    rw [Members.insert, Members.insert]
    split
    · exact .cons ⟨rfl, le_refl _⟩ (.cons ⟨rfl, less⟩ rest)
    · split
      · exact .cons ⟨rfl, le_refl _⟩ rest
      · exact .cons ⟨rfl, less⟩ ih

theorem Within.extend {ms ms' : Members} (h : Within ms ms') (more : Members) :
    Within (Members.extend ms more) (Members.extend ms' more) := by
  unfold Members.extend
  induction more generalizing ms ms' with
  | nil => exact h
  | cons m rest ih => exact ih (h.insert m.1 m.2)

theorem Within.membersDepth_le {ms ms' : Members} (h : Within ms ms') : membersDepth ms ≤ membersDepth ms' := by
  induction h with
  | nil => exact le_refl _
  | cons first _ ih =>
    rw [membersDepth, membersDepth]
    exact max_le_max first.2 ih

theorem Within.sorted {ms ms' : Members} (h : Within ms ms') (sorted : Members.Sorted ms') : Members.Sorted ms := by
  have keys : ms.map Prod.fst = ms'.map Prod.fst := by
    induction h with
    | nil => rfl
    | cons first _ ih => rw [List.map_cons, List.map_cons, first.1, ih (List.Pairwise.of_cons sorted)]
  have : (ms'.map Prod.fst).Pairwise (· < ·) := List.pairwise_map.mpr sorted
  rw [← keys] at this
  exact List.pairwise_map.mp this

end Members

mutual

/-- **A value is read again**, and what is read can be. -/
theorem exists_toJson?_spelled (v : Json) (fits : v.Numbers Number.Fits) (depth : Nat) (h : v.depth ≤ depth) :
    ∃ w, Document.toJson? depth v.spelled = some w ∧ w.Numbers Number.Fits ∧ w.depth ≤ v.depth := by
  cases v with
  | number n =>
    rw [Numbers] at fits
    obtain none' | ⟨m, fits', read⟩ := Number.returns fits
    · exact ⟨.null, by rw [spelled, none', Document.toJson?], by simp [Numbers], by simp [Json.depth]⟩
    · exact ⟨.number m, by rw [spelled, read, Document.toJson?], by simpa [Numbers] using fits', by simp [Json.depth]⟩
  | array items =>
    obtain ⟨below, rfl, within⟩ := depth_le_of_array h
    rw [Numbers] at fits
    obtain ⟨ws, read, fits', less⟩ := exists_itemsToJson?_spelledItems items fits below within
    refine ⟨.array ws, by rw [spelled, Document.toJson?, read, Option.map_some], by rwa [Numbers], ?_⟩
    rw [Json.depth, Json.depth]
    exact Nat.succ_le_succ less
  | object ms =>
    obtain ⟨below, rfl, within⟩ := depth_le_of_object h
    rw [Numbers] at fits
    obtain ⟨ws, read, fits', less⟩ := exists_membersToJson?_spelledMembers ms fits below within
    refine ⟨.object (Members.ofList ws), by rw [spelled, Document.toJson?, read, Option.map_some]; rfl, ?_, ?_⟩
    · rw [Numbers, numbersMembers_iff]
      exact fun m mem => (numbersMembers_iff _ _).mp fits' m (Members.mem_ofList _ m mem)
    · rw [Json.depth, Json.depth]
      exact Nat.succ_le_succ (membersDepth_extend [] ws (by simp [membersDepth]) less.membersDepth_le)
  | _ => exact ⟨_, by rw [spelled, Document.toJson?], by simp [Numbers], le_refl _⟩

theorem exists_itemsToJson?_spelledItems (items : List Json) (fits : NumbersItems Number.Fits items) (depth : Nat)
    (h : itemsDepth items ≤ depth) :
    ∃ ws, Document.itemsToJson? depth (spelledItems items) = some ws ∧ NumbersItems Number.Fits ws ∧
      itemsDepth ws ≤ itemsDepth items := by
  cases items with
  | nil => exact ⟨[], by rw [spelledItems, Document.itemsToJson?], by simp [NumbersItems], le_refl _⟩
  | cons v rest =>
    rw [NumbersItems] at fits
    rw [itemsDepth, Nat.max_le] at h
    obtain ⟨w, read, fits', less⟩ := exists_toJson?_spelled v fits.1 depth h.1
    obtain ⟨ws, read', fits'', less'⟩ := exists_itemsToJson?_spelledItems rest fits.2 depth h.2
    refine ⟨w :: ws, by rw [spelledItems, Document.itemsToJson?, read, read'], by rw [NumbersItems]; exact ⟨fits', fits''⟩, ?_⟩
    rw [itemsDepth, itemsDepth]
    exact max_le_max less less'

theorem exists_membersToJson?_spelledMembers (ms : Members) (fits : NumbersMembers Number.Fits ms) (depth : Nat)
    (h : membersDepth ms ≤ depth) :
    ∃ ws, Document.membersToJson? depth (spelledMembers ms) = some ws ∧ NumbersMembers Number.Fits ws ∧
      Members.Within ws ms := by
  cases ms with
  | nil => exact ⟨[], by rw [spelledMembers, Document.membersToJson?], by simp [NumbersMembers], .nil⟩
  | cons m rest =>
    obtain ⟨k, v⟩ := m
    rw [NumbersMembers] at fits
    rw [membersDepth, Nat.max_le] at h
    obtain ⟨w, read, fits', less⟩ := exists_toJson?_spelled v fits.1 depth h.1
    obtain ⟨ws, read', fits'', within⟩ := exists_membersToJson?_spelledMembers rest fits.2 depth h.2
    exact ⟨(k, w) :: ws, by rw [spelledMembers, Document.membersToJson?, read, read'],
      by rw [NumbersMembers]; exact ⟨fits', fits''⟩, .cons ⟨rfl, less⟩ within⟩

end

end Json

end ModelDepot
