import Mathlib
import ModelDepot.Proofs.Boosting.Prediction
import ModelDepot.Proofs.Boosting.Unfolding

/-! # What a prediction depends on

A walk looks at a row only where a split asks for a feature, and there only at the number that the row has, if it
has one. So two rows that agree on the features of the splits are predicted alike, also by an ensemble with faults,
and however long the rows are.
-/

namespace ModelDepot

open Float.Model (UnpackedFloat)

namespace Boosting

/-! ## Equal numbers -/

theorem compare_congr {a b : UnpackedFloat} (same : a.compare b = some .eq) (c : UnpackedFloat) :
    a.compare c = b.compare c := by
  cases a with
  | notANumber => simp [UnpackedFloat.compare] at same
  | infinity s =>
    cases b with
    | infinity s' => cases s <;> cases s' <;> simp_all [UnpackedFloat.compare, compare]
    | _ => cases s <;> simp [UnpackedFloat.compare] at same
  | zero s =>
    cases b with
    | zero s' =>
      cases c with
      | infinity s₁ | finite s₁ => cases s₁ <;> rfl
      | _ => rfl
    | infinity s' | finite s' => cases s' <;> simp [UnpackedFloat.compare] at same
    | notANumber => simp [UnpackedFloat.compare] at same
  | finite s m e pos =>
    cases b with
    | finite s' m' e' pos' =>
      cases s <;> cases s' <;> simp only [UnpackedFloat.compare, Option.some.injEq, reduceCtorEq, Ordering.swap_eq_eq,
        Ordering.then_eq_eq, Std.compare_eq_iff_eq] at same
      all_goals
        obtain ⟨rfl, rfl⟩ := same
        rfl
    | infinity s' => cases s' <;> simp [UnpackedFloat.compare] at same
    | zero s' => cases s <;> simp [UnpackedFloat.compare] at same
    | notANumber => simp [UnpackedFloat.compare] at same

theorem compare_self {a : UnpackedFloat} (number : a.isNaN = false) : a.compare a = some .eq := by
  cases a with
  | notANumber => simp [UnpackedFloat.isNaN] at number
  | zero s => rfl
  | infinity s => cases s <;> rfl
  | finite s => cases s <;> simp [UnpackedFloat.compare]

theorem lt_congr {x y : Float32} (same : (x == y) = true) (c : Float32) : x < c ↔ y < c := by
  have equal : x.toModel.unpack.compare y.toModel.unpack = some .eq := eq_of_beq same
  change decide (x.toModel < c.toModel) = true ↔ decide (y.toModel < c.toModel) = true
  rw [decide_eq_true_iff, decide_eq_true_iff]
  change x.toModel.unpack.lt c.toModel.unpack = true ↔ y.toModel.unpack.lt c.toModel.unpack = true
  rw [UnpackedFloat.lt, UnpackedFloat.lt, compare_congr equal]

theorem beq_self_of_number {x : Float32} (number : x.isNaN = false) : (x == x) = true := by
  change (x.toModel.unpack.compare x.toModel.unpack == some .eq) = true
  rw [compare_self number]
  rfl

/-! ## Rows that agree -/

variable {row row' : Row} {feature : UInt32} {t : Tree}

/-- Rows agree on a feature: both lack it, or they have equal numbers for it, as the two zeros are. -/
def Row.Agree (row row' : Row) (feature : UInt32) : Prop :=
  match row.known? feature, row'.known? feature with
  | some x, some y => (x == y) = true
  | none, none => True
  | _, _ => False

theorem Row.isNaN_of_known? {x : Float32} (known : row.known? feature = some x) : x.isNaN = false := by
  simpa using (Option.filter_eq_some_iff.mp known).2

theorem Row.agree_of_eq (same : row.known? feature = row'.known? feature) : row.Agree row' feature := by
  unfold Agree
  rw [same]
  cases known : row'.known? feature with
  | none => trivial
  | some x => exact beq_self_of_number (isNaN_of_known? known)

theorem Row.known?_append {missing : Row} (nan : ∀ x ∈ missing, x.isNaN = true) :
    Row.known? (row ++ missing) feature = row.known? feature := by
  unfold known?
  by_cases inside : feature.toNat < row.length
  · rw [List.getElem?_append_left inside]
  · rw [List.getElem?_append_right (by omega), List.getElem?_eq_none (l := row) (by omega)]
    cases beyond : missing[feature.toNat - row.length]? with
    | none => rfl
    | some x =>
      rw [Option.filter, nan x (List.mem_of_getElem? beyond), Bool.not_true, if_neg Bool.false_ne_true]
      rfl

namespace Tree

/-- Some node that is not a leaf asks for a feature. -/
def Uses (t : Tree) (feature : UInt32) : Prop :=
  ∃ (node : Nat) (left : Int32), t.leftChildren[node]? = some left ∧ left ≠ -1 ∧ t.splitIndices[node]? = some feature

theorem goesLeft_congr (agree : row.Agree row' feature) (condition : Float32) (missingLeft : Bool) :
    goesLeft row feature condition missingLeft = goesLeft row' feature condition missingLeft := by
  unfold Row.Agree at agree
  rw [goesLeft_eq, goesLeft_eq]
  cases known : row.known? feature <;> cases known' : row'.known? feature <;> simp only [known, known'] at agree ⊢
  exact decide_eq_decide.mpr (lt_congr agree condition)

/-- Two walks from a node stay together: at each split both rows go the same way, or both walks end. -/
theorem leafFrom_congr (agree : ∀ feature, t.Uses feature → row.Agree row' feature) (node : Nat) :
    t.leafFrom row node = t.leafFrom row' node := by
  fun_induction t.leafFrom row node with
  | case1 node inside missing => rw [leafFrom, dif_pos inside, missing]
  | case2 node inside condition at' left leaf =>
    rw [leafFrom_of_leaf (Array.getElem?_eq_some_iff.mpr ⟨inside, leaf⟩) at']
  | case3 node inside condition at' left inner right feature missingLeft missing asks second next forward ih =>
    have uses : t.Uses feature := ⟨node, left, Array.getElem?_eq_getElem inside, inner, asks⟩
    have same : next = if goesLeft row' feature condition missingLeft then left else right := by
      simp only [next, dite_eq_ite, goesLeft_congr (agree feature uses)]
    rw [ih, same, leafFrom_of_split (Array.getElem?_eq_getElem inside) inner second asks at' missing (same ▸ forward)]
  | case4 node inside condition at' left inner right feature missingLeft missing asks second next back =>
    have uses : t.Uses feature := ⟨node, left, Array.getElem?_eq_getElem inside, inner, asks⟩
    have same : next = if goesLeft row' feature condition missingLeft then left else right := by
      simp only [next, dite_eq_ite, goesLeft_congr (agree feature uses)]
    rw [leafFrom_of_back (Array.getElem?_eq_getElem inside) inner second asks at' missing (same ▸ back)]
  | case5 node inside condition at' left inner lacking =>
    rw [leafFrom_of_lacking (Array.getElem?_eq_getElem inside) inner at' lacking]
  | case6 node outside => rw [leafFrom, dif_neg outside]

theorem leafValue_congr (agree : ∀ feature, t.Uses feature → row.Agree row' feature) :
    t.leafValue row = t.leafValue row' := leafFrom_congr agree 0

end Tree

namespace Booster

/-- Some split of some tree asks for a feature. -/
def Uses (b : Booster) (feature : UInt32) : Prop := ∃ t ∈ b.trees, t.Uses feature

theorem addLeaves_congr {trees : List Tree} (same : ∀ t ∈ trees, t.leafValue row = t.leafValue row') (margin : Float32) :
    addLeaves row margin trees = addLeaves row' margin trees := by
  induction trees generalizing margin with
  | nil => rfl
  | cons t rest ih =>
    rw [addLeaves, addLeaves, same t (by simp)]
    cases t.leafValue row' with
    | error f => rfl
    | ok v => exact ih (fun u hu => same u (by simp [hu])) _

theorem predictRow_congr (b : Booster) (agree : ∀ feature, b.Uses feature → row.Agree row' feature) :
    b.predictRow row = b.predictRow row' := by
  have same : ∀ t ∈ b.trees, t.leafValue row = t.leafValue row' := fun t mem =>
    Tree.leafValue_congr fun feature uses => agree feature ⟨t, mem, uses⟩
  cases prepared : b.prepare with
  | error e => rw [(predict_of_prepare_error b e prepared []).2, (predict_of_prepare_error b e prepared []).2]
  | ok start =>
    obtain ⟨link, margin⟩ := start
    rw [predictRow_of_prepare_ok b link margin prepared, predictRow_of_prepare_ok b link margin prepared, predictFrom,
      predictFrom, addLeaves_congr same]

/-- **A prediction depends only on the features of the splits**, whatever the ensemble: rows that agree on these have
the same result, be it a value or an error. So what is not a number can be put at the end of a row or taken away
there, and rows that differ only in a feature that no split asks for are predicted alike. -/
theorem predictRow_uses (b : Booster) :
    (∀ row row' : Row, (∀ feature, b.Uses feature → row.Agree row' feature) → b.predictRow row = b.predictRow row') ∧
    (∀ row missing : Row, (∀ x ∈ missing, x.isNaN = true) → b.predictRow (row ++ missing) = b.predictRow row) ∧
    ∀ (row row' : Row) (i : Nat), (∀ feature, b.Uses feature → feature.toNat ≠ i) →
      (∀ j, j ≠ i → row[j]? = row'[j]?) → b.predictRow row = b.predictRow row' := by
  refine ⟨fun row row' => b.predictRow_congr, fun row missing nan => ?_, fun row row' i unused others => ?_⟩
  · exact b.predictRow_congr fun feature _ => Row.agree_of_eq (Row.known?_append nan)
  · refine b.predictRow_congr fun feature uses => Row.agree_of_eq ?_
    rw [Row.known?, Row.known?, others _ (unused feature uses)]

/-- One split, on feature 1. -/
def single : Booster where
  baseScore := "0"
  featureCount := "2"
  objective := "reg:squarederror"
  kind := treeKind
  trees := [.stump 1 (Float32.ofBits 0x3f800000) (Float32.ofBits 0x40000000) (Float32.ofBits 0x40400000) true]
  treeInfo := [0]
  version := [2, 0, 0]
  others := ⟨[], [], [], [], []⟩

theorem eq_one_of_single_uses {feature : UInt32} (uses : single.Uses feature) : feature = 1 := by
  obtain ⟨t, mem, node, left, first, inner, asks⟩ := uses
  obtain rfl := List.mem_singleton.mp mem
  match node with
  | 0 => exact (Option.some.inj asks).symm
  | 1 | 2 => exact absurd (Option.some.inj first).symm inner
  | node + 3 => simp [Tree.stump] at first

/-- The first feature is another one, and in place of a zero there is the other zero, followed by what is no number. -/
theorem predictRow_uses_single :
    let row : Row := [Float32.ofBits 0x3f800000, Float32.ofBits 0]
    let row' : Row := [Float32.ofBits 0x40000000, Float32.ofBits 0x80000000]
    let nan := Float32.ofBits 0x7fc00000
    single.predictRow row = single.predictRow row' ∧ single.predictRow (row' ++ [nan]) = single.predictRow row' ∧
      single.predictRow [nan, Float32.ofBits 0] = single.predictRow row := by
  intro row row' nan
  obtain ⟨agreeing, appending, changing⟩ := single.predictRow_uses
  refine ⟨agreeing row row' fun feature uses => ?_, appending row' [nan] ?_,
    changing _ row 0 (fun feature uses => ?_) fun j other => ?_⟩
  · rw [eq_one_of_single_uses uses]
    exact (by decide : (Float32.ofBits 0 == Float32.ofBits 0x80000000) = true)
  · decide
  · rw [eq_one_of_single_uses uses]
    decide
  · cases j with
    | zero => exact absurd rfl other
    | succ j => rfl

end Booster

end Boosting

end ModelDepot
