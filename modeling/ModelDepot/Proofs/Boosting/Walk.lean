import ModelDepot.Boosting.Booster

/-! # The walk through a sound tree

A tree without a fault gives every row a leaf: its children come after their parents and are there, so
the walk never leaves the arrays and never turns back.
-/

namespace ModelDepot

namespace Boosting

namespace Tree

/-! ## What it means that a tree has no fault -/

/-- Both children of a node that is not a leaf come after it and are there. -/
def IsForward (t : Tree) : Prop :=
  ∀ node left right, t.leftChildren[node]? = some left → t.rightChildren[node]? = some right →
    left ≠ -1 → t.isChildOf node left = true ∧ t.isChildOf node right = true

/-- A tree that a row can be sent through. -/
structure Sound (t : Tree) : Prop where
  nonempty : 0 < t.size
  right_size : t.rightChildren.size = t.size
  indices_size : t.splitIndices.size = t.size
  conditions_size : t.splitConditions.size = t.size
  default_size : t.defaultLeft.size = t.size
  forward : t.IsForward

theorem badChild?_eq_none_iff (t : Tree) (node : Nat) (left right : Int32)
    (hl : t.leftChildren[node]? = some left) (hr : t.rightChildren[node]? = some right) :
    t.badChild? node = none ↔
      (left ≠ -1 → t.isChildOf node left = true ∧ t.isChildOf node right = true) := by
  unfold badChild?
  rw [hl, hr]
  by_cases leaf : left = -1
  · simp [leaf]
  · cases hcl : t.isChildOf node left <;> cases hcr : t.isChildOf node right <;> simp [leaf, hcl, hcr]

theorem badChild?_of_size_le (t : Tree) (node : Nat) (h : t.size ≤ node) : t.badChild? node = none := by
  unfold badChild?
  have hl : t.leftChildren[node]? = none := Array.getElem?_eq_none h
  rw [hl]

theorem isForward_iff (t : Tree) (hr : t.rightChildren.size = t.size) :
    t.IsForward ↔ ∀ node < t.size, t.badChild? node = none := by
  constructor
  · intro h node inside
    have hl : t.leftChildren[node]? = some t.leftChildren[node] := Array.getElem?_eq_getElem inside
    have hr : t.rightChildren[node]? = some t.rightChildren[node] :=
      Array.getElem?_eq_getElem (by rw [hr]; exact inside)
    rw [badChild?_eq_none_iff t node _ _ hl hr]
    exact h node _ _ hl hr
  · intro h node left right hl hr
    rw [← badChild?_eq_none_iff t node left right hl hr]
    by_cases inside : node < t.size
    · exact h node inside
    · exact badChild?_of_size_le t node (by omega)

theorem isRectangular_iff (t : Tree) :
    t.isRectangular = true ↔ t.rightChildren.size = t.size ∧ t.splitIndices.size = t.size ∧
      t.splitConditions.size = t.size ∧ t.defaultLeft.size = t.size := by
  simp [isRectangular, and_assoc]

theorem fault?_eq_none_iff (t : Tree) (index : Nat) : t.fault? index = none ↔ t.Sound := by
  unfold fault?
  by_cases empty : t.size = 0
  · simp only [empty, if_true, reduceCtorEq, false_iff]
    intro h
    exact absurd h.nonempty (by omega)
  rw [if_neg empty]
  by_cases rectangular : t.isRectangular = true
  · obtain ⟨hr, hi, hc, hd⟩ := (isRectangular_iff t).mp rectangular
    have hforward := isForward_iff t hr
    simp only [rectangular, Bool.not_true, Bool.false_eq_true, if_false, List.findSome?_eq_none_iff,
      List.mem_range, Option.map_eq_none_iff]
    constructor
    · intro h
      exact ⟨by omega, hr, hi, hc, hd, hforward.mpr h⟩
    · intro h
      exact hforward.mp h.forward
  · simp only [rectangular, Bool.not_false, if_true, reduceCtorEq, false_iff]
    intro h
    exact rectangular ((isRectangular_iff t).mpr
      ⟨h.right_size, h.indices_size, h.conditions_size, h.default_size⟩)

/-! ## The walk -/

/-- The nodes that a walk can stand at: they are there, and the child links can name them. -/
def Within (t : Tree) (node : Nat) : Prop := node < t.size ∧ node < 0x8000_0000

theorem isChildOf_within (t : Tree) (node : Nat) (child : Int32) (h : t.Within node)
    (hc : t.isChildOf node child = true) :
    (node : Int) < child.toInt ∧ t.Within child.toInt.toNat := by
  obtain ⟨inside, small⟩ := h
  simp only [isChildOf, Bool.and_eq_true, decide_eq_true_eq] at hc
  obtain ⟨⟨after, _⟩, there⟩ := hc
  rw [Int32.lt_iff_toInt_lt, Int32.toInt_ofNat_of_lt small] at after
  have := Int32.toInt_lt child
  refine ⟨after, ?_, ?_⟩ <;> omega

theorem next_within (t : Tree) (sound : t.Sound) (node : Nat) (h : t.Within node) (left right : Int32)
    (hl : t.leftChildren[node]? = some left) (hr : t.rightChildren[node]? = some right)
    (inner : left ≠ -1) (goLeft : Bool) :
    (node : Int) < (if goLeft then left else right).toInt ∧
      t.Within (if goLeft then left else right).toInt.toNat := by
  obtain ⟨hleft, hright⟩ := sound.forward node left right hl hr inner
  cases goLeft
  · exact isChildOf_within t node right h hright
  · exact isChildOf_within t node left h hleft

theorem leafFrom_ok (t : Tree) (sound : t.Sound) (row : Row) (node : Nat) (h : t.Within node) :
    ∃ value, t.leafFrom row node = .ok value := by
  fun_induction t.leafFrom row node with
  | case1 node inside missing =>
    have hc : node < t.splitConditions.size := by rw [sound.conditions_size]; exact inside
    simp [Array.getElem?_eq_getElem hc] at missing
  | case2 node inside condition _ left leaf => exact ⟨condition, rfl⟩
  | case3 node inside condition _ left inner right feature missingLeft _ _ hr next forward ih =>
    have hl : t.leftChildren[node]? = some left := Array.getElem?_eq_getElem inside
    exact ih (next_within t sound node h left right hl hr inner _).2
  | case4 node inside condition _ left inner right feature missingLeft _ _ hr next backward =>
    have hl : t.leftChildren[node]? = some left := Array.getElem?_eq_getElem inside
    exact absurd (next_within t sound node h left right hl hr inner _).1 backward
  | case5 node inside condition _ left inner missing =>
    -- The other arrays have an entry for every node.
    have hr : node < t.rightChildren.size := by rw [sound.right_size]; exact inside
    have hi : node < t.splitIndices.size := by rw [sound.indices_size]; exact inside
    have hd : node < t.defaultLeft.size := by rw [sound.default_size]; exact inside
    exact (missing _ _ _ (Array.getElem?_eq_getElem hr) (Array.getElem?_eq_getElem hi)
      (Array.getElem?_eq_getElem hd)).elim
  | case6 node outside => exact absurd h.1 outside

theorem leafValue_ok (t : Tree) (sound : t.Sound) (row : Row) : ∃ value, t.leafValue row = .ok value :=
  leafFrom_ok t sound row 0 ⟨sound.nonempty, by omega⟩

end Tree

end Boosting

end ModelDepot
