import ModelDepot.Proofs.Boosting.Walk

/-! # Trees unfolded

The arrays of a tree stand for a binary tree: a node is a leaf, or it has two trees below it. A node may be a child
of several others or of none, so that the binary tree can have more nodes than the arrays, or fewer. A tree without
a fault unfolds to one binary tree, and its value for a row is what the binary tree comes to.
-/

namespace ModelDepot

namespace Boosting

/-! ## Rows -/

/-- The number that a row has for a feature; there is none if the feature is missing. -/
def Row.known? (row : Row) (feature : UInt32) : Option Float32 := row[feature.toNat]?.filter fun x => ! x.isNaN

theorem Tree.goesLeft_eq (row : Row) (feature : UInt32) (condition : Float32) (missingLeft : Bool) :
    goesLeft row feature condition missingLeft =
      match row.known? feature with
      | some x => decide (x < condition)
      | none => missingLeft := by
  unfold goesLeft Row.known?
  cases row[feature.toNat]? with
  | none => rfl
  | some x =>
    cases nan : x.isNaN <;>
      simp only [Option.filter, nan, Bool.not_true, Bool.not_false, Bool.false_eq_true, if_true, if_false]

/-! ## Decisions -/

/-- A binary tree of splits, with values at its leaves. -/
inductive Decision where
  | leaf (value : Float32)
  | split (feature : UInt32) (condition : Float32) (missingLeft : Bool) (left right : Decision)

/-- What a row comes to: at each split it goes left if its number is less than the condition, or if it has none and
those are sent left. -/
def Decision.value (row : Row) : Decision → Float32
  | leaf value => value
  | split feature condition missingLeft left right =>
    match row.known? feature with
    | some x => if x < condition then left.value row else right.value row
    | none => if missingLeft then left.value row else right.value row

theorem Decision.value_split (row : Row) (feature : UInt32) (condition : Float32) (missingLeft : Bool)
    (left right : Decision) :
    (split feature condition missingLeft left right).value row =
      if Tree.goesLeft row feature condition missingLeft then left.value row else right.value row := by
  rw [value, Tree.goesLeft_eq]
  cases row.known? feature <;> simp

namespace Tree

variable {t : Tree} {row : Row} {node l r : Nat} {left right : Int32} {feature : UInt32} {condition value : Float32}
  {missingLeft : Bool} {d d' : Decision}

/-- What the arrays stand for at a node. -/
inductive Unfolds (t : Tree) : Nat → Decision → Prop where
  | leaf {node : Nat} {value : Float32} (end' : t.leftChildren[node]? = some (-1))
      (at' : t.splitConditions[node]? = some value) : Unfolds t node (.leaf value)
  | split {node l r : Nat} {left right : Int32} {feature : UInt32} {condition : Float32} {missingLeft : Bool}
      {below below' : Decision} (first : t.leftChildren[node]? = some left) (inner : left ≠ -1)
      (second : t.rightChildren[node]? = some right) (asks : t.splitIndices[node]? = some feature)
      (at' : t.splitConditions[node]? = some condition) (missing : t.defaultLeft[node]? = some missingLeft)
      (there : left.toInt = l) (there' : right.toInt = r) (on : Unfolds t l below) (on' : Unfolds t r below') :
      Unfolds t node (.split feature condition missingLeft below below')

theorem Unfolds.unique (unfolds : t.Unfolds node d) (unfolds' : t.Unfolds node d') : d' = d := by
  induction unfolds generalizing d' with
  | leaf end' at' =>
    cases unfolds' with
    | leaf end₁ at₁ => rw [Option.some.inj (at₁.symm.trans at')]
    | split first inner => exact absurd (Option.some.inj (first.symm.trans end')) inner
  | split first inner second asks at' missing there there' on on' ih ih' =>
    cases unfolds' with
    | leaf end₁ => exact absurd (Option.some.inj (first.symm.trans end₁)) inner
    | split first₁ inner₁ second₁ asks₁ at₁ missing₁ there₁ there₁' on₁ on₁' =>
      obtain rfl := Option.some.inj (first₁.symm.trans first)
      obtain rfl := Option.some.inj (second₁.symm.trans second)
      obtain rfl := Int.ofNat.inj (there₁.symm.trans there)
      obtain rfl := Int.ofNat.inj (there₁'.symm.trans there')
      rw [Option.some.inj (asks₁.symm.trans asks), Option.some.inj (at₁.symm.trans at'),
        Option.some.inj (missing₁.symm.trans missing), ih on₁, ih' on₁']

/-! ## One step of a walk -/

theorem leafFrom_of_leaf (end' : t.leftChildren[node]? = some (-1)) (at' : t.splitConditions[node]? = some value) :
    t.leafFrom row node = .ok value := by
  obtain ⟨inside, same⟩ := Array.getElem?_eq_some_iff.mp end'
  rw [leafFrom, dif_pos inside, at']
  simp [same]

theorem leafFrom_of_split (first : t.leftChildren[node]? = some left) (inner : left ≠ -1)
    (second : t.rightChildren[node]? = some right) (asks : t.splitIndices[node]? = some feature)
    (at' : t.splitConditions[node]? = some condition) (missing : t.defaultLeft[node]? = some missingLeft)
    (forward : (node : Int) < (if goesLeft row feature condition missingLeft then left else right).toInt) :
    t.leafFrom row node =
      t.leafFrom row (if goesLeft row feature condition missingLeft then left else right).toInt.toNat := by
  obtain ⟨inside, same⟩ := Array.getElem?_eq_some_iff.mp first
  rw [leafFrom, dif_pos inside, at']
  simp only [same, if_neg inner, second, asks, missing, dif_pos forward]

theorem leafFrom_of_back (first : t.leftChildren[node]? = some left) (inner : left ≠ -1)
    (second : t.rightChildren[node]? = some right) (asks : t.splitIndices[node]? = some feature)
    (at' : t.splitConditions[node]? = some condition) (missing : t.defaultLeft[node]? = some missingLeft)
    (back : ¬ (node : Int) < (if goesLeft row feature condition missingLeft then left else right).toInt) :
    t.leafFrom row node = .error (.malformedNode node) := by
  obtain ⟨inside, same⟩ := Array.getElem?_eq_some_iff.mp first
  rw [leafFrom, dif_pos inside, at']
  simp only [same, if_neg inner, second, asks, missing, dif_neg back]

theorem leafFrom_of_lacking (first : t.leftChildren[node]? = some left) (inner : left ≠ -1)
    (at' : t.splitConditions[node]? = some condition)
    (lacking : ∀ right feature missingLeft, t.rightChildren[node]? = some right → t.splitIndices[node]? = some feature →
      t.defaultLeft[node]? = some missingLeft → False) :
    t.leafFrom row node = .error (.malformedNode node) := by
  obtain ⟨inside, same⟩ := Array.getElem?_eq_some_iff.mp first
  rw [leafFrom, dif_pos inside, at']
  simp only [same, if_neg inner]

/-! ## Sound trees -/

theorem Sound.entries (sound : t.Sound) (inside : node < t.size) :
    ∃ left right feature condition missingLeft, t.leftChildren[node]? = some left ∧ t.rightChildren[node]? = some right ∧
      t.splitIndices[node]? = some feature ∧ t.splitConditions[node]? = some condition ∧
        t.defaultLeft[node]? = some missingLeft :=
  ⟨_, _, _, _, _, Array.getElem?_eq_getElem inside, Array.getElem?_eq_getElem (sound.right_size.symm ▸ inside),
    Array.getElem?_eq_getElem (sound.indices_size.symm ▸ inside),
    Array.getElem?_eq_getElem (sound.conditions_size.symm ▸ inside),
    Array.getElem?_eq_getElem (sound.default_size.symm ▸ inside)⟩

/-- A tree without a fault unfolds at every node that a walk can stand at. -/
theorem Sound.unfolds (sound : t.Sound) (node : Nat) (h : t.Within node) : ∃ d, t.Unfolds node d := by
  have inside : node < t.size := h.1
  obtain ⟨left, right, feature, condition, missingLeft, first, second, asks, at', missing⟩ := sound.entries inside
  by_cases inner : left = -1
  · exact ⟨_, .leaf (inner ▸ first) at'⟩
  -- Both children come after the node, and so the arrays are unfolded from the end.
  obtain ⟨after, there⟩ : (node : Int) < left.toInt ∧ t.Within left.toInt.toNat := by
    simpa using next_within t sound node h left right first second inner true
  obtain ⟨after', there'⟩ : (node : Int) < right.toInt ∧ t.Within right.toInt.toNat := by
    simpa using next_within t sound node h left right first second inner false
  obtain ⟨below, on⟩ := sound.unfolds _ there
  obtain ⟨below', on'⟩ := sound.unfolds _ there'
  exact ⟨_, .split first inner second asks at' missing (Int.toNat_of_nonneg (by omega)).symm
    (Int.toNat_of_nonneg (by omega)).symm on on'⟩
termination_by t.size - node
decreasing_by all_goals exact Nat.sub_lt_sub_left inside (Int.lt_toNat.mpr (by assumption))

theorem Unfolds.leafFrom (unfolds : t.Unfolds node d) (sound : t.Sound) (h : t.Within node) :
    t.leafFrom row node = .ok (d.value row) := by
  induction unfolds with
  | leaf end' at' => exact leafFrom_of_leaf end' at'
  | @split node l r left right feature condition missingLeft below below' first inner second asks at' missing there there'
      on on' ih ih' =>
    have next := next_within t sound node h left right first second inner (goesLeft row feature condition missingLeft)
    rw [leafFrom_of_split first inner second asks at' missing next.1, Decision.value_split]
    replace next := next.2
    cases goes : goesLeft row feature condition missingLeft with
    | true =>
      simp only [goes, if_true, there, Int.toNat_natCast] at next ⊢
      exact ih next
    | false =>
      simp only [goes, Bool.false_eq_true, if_false, there', Int.toNat_natCast] at next ⊢
      exact ih' next

/-- **A tree that passes the check is a finite binary tree**: its arrays unfold from the first node in exactly one way,
and every row has a value, which is what the row comes to there. -/
theorem leafValue_unfolded (t : Tree) (index : Nat) (accepted : t.fault? index = none) :
    ∃ d, t.Unfolds 0 d ∧ (∀ d', t.Unfolds 0 d' → d' = d) ∧ ∀ row, t.leafValue row = .ok (d.value row) := by
  have sound := (t.fault?_eq_none_iff index).mp accepted
  have start : t.Within 0 := ⟨sound.nonempty, by omega⟩
  obtain ⟨d, unfolds⟩ := sound.unfolds 0 start
  exact ⟨d, unfolds, fun _ => unfolds.unique, fun _ => unfolds.leafFrom sound start⟩

/-- Two splits that share the leaf 2; the leaf 4 is a child of no node. -/
def shared : Tree where
  leftChildren := #[1, 2, -1, -1, -1]
  rightChildren := #[2, 3, -1, -1, -1]
  splitIndices := #[0, 7, 0, 0, 0]
  splitConditions := #[Float32.ofBits 0x3f800000, Float32.ofBits 0, Float32.ofBits 0x40000000, Float32.ofBits 0x40400000,
    Float32.ofBits 0x40800000]
  defaultLeft := #[false, false, false, false, false]
  others := []

/-- The row goes left at the first split and lacks what the second one asks for. -/
theorem leafValue_unfolded_shared :
    shared.fault? 0 = none ∧ shared.leafValue [Float32.ofBits 0] = .ok (Float32.ofBits 0x40400000) := by
  have accepted : shared.fault? 0 = none := by decide
  refine ⟨accepted, ?_⟩
  obtain ⟨d, -, unique, value⟩ := leafValue_unfolded shared 0 accepted
  have two : shared.Unfolds 2 (.leaf (Float32.ofBits 0x40000000)) := .leaf rfl rfl
  have three : shared.Unfolds 3 (.leaf (Float32.ofBits 0x40400000)) := .leaf rfl rfl
  have one : shared.Unfolds 1 _ := .split rfl (by decide) rfl rfl rfl rfl rfl rfl two three
  rw [value, ← unique _ (.split rfl (by decide) rfl rfl rfl rfl rfl rfl one two)]
  rfl

end Tree

end Boosting

end ModelDepot
