import Mathlib.Data.List.Forall2
import ModelDepot.Proofs.Boosting.Walk

/-! # Predictions

No row makes a sound ensemble fail: what prediction can refuse is the model, and it refuses it before
it looks at a row. The batch and the single row compute the same sum.
-/

namespace ModelDepot

namespace Boosting

namespace Booster

/-! ## Sound ensembles -/

/-- The only kind that is supported, and no tree with a fault. -/
def Sound (b : Booster) : Prop := b.kind = treeKind ∧ ∀ t ∈ b.trees, t.Sound

theorem treesFault?_eq_none_iff (trees : List Tree) (index : Nat) :
    treesFault? index trees = none ↔ ∀ t ∈ trees, t.Sound := by
  induction trees generalizing index with
  | nil => simp [treesFault?]
  | cons t rest ih =>
    rw [treesFault?, Option.or_eq_none_iff, ih, Tree.fault?_eq_none_iff]
    simp

theorem fault?_eq_none_iff (b : Booster) : b.fault? = none ↔ b.Sound := by
  unfold fault? Sound
  by_cases h : b.kind = treeKind
  · simp [h, treesFault?_eq_none_iff]
  · simp [h]

theorem validate_eq_ok_iff (b : Booster) : b.validate = .ok () ↔ b.Sound := by
  rw [← fault?_eq_none_iff, validate]
  cases b.fault? <;> simp

theorem sound_of_ofBytes (text : List UInt8) (b : Booster) (h : ofBytes text = .ok b) : b.Sound := by
  unfold ofBytes at h
  cases hd : looseDecoder.ofBytes? text with
  | none => simp [hd] at h
  | some b' =>
    simp only [hd] at h
    cases hv : b'.validate with
    | error e => simp [hv, Except.map] at h
    | ok u =>
      simp only [hv, Except.map, Except.ok.injEq] at h
      rw [← h, ← validate_eq_ok_iff, hv]

/-! ## The leaves of a row -/

/-- The leaves that a row reaches, tree by tree. -/
def Leaves (row : Row) (trees : List Tree) (leaves : List Float32) : Prop :=
  List.Forall₂ (fun t leaf => t.leafValue row = .ok leaf) trees leaves

theorem exists_leaves (row : Row) (trees : List Tree) (h : ∀ t ∈ trees, t.Sound) :
    ∃ leaves, Leaves row trees leaves := by
  induction trees with
  | nil => exact ⟨[], List.Forall₂.nil⟩
  | cons t rest ih =>
    obtain ⟨leaf, hleaf⟩ := t.leafValue_ok (h t (by simp)) row
    obtain ⟨leaves, hleaves⟩ := ih fun u hu => h u (by simp [hu])
    exact ⟨leaf :: leaves, List.Forall₂.cons hleaf hleaves⟩

theorem addLeaves_of_leaves (row : Row) (trees : List Tree) (leaves : List Float32)
    (h : Leaves row trees leaves) (margin : Float32) :
    addLeaves row margin trees = .ok (leaves.foldl (· + ·) margin) := by
  induction h generalizing margin with
  | nil => rfl
  | cons hleaf _ ih =>
    rw [addLeaves, hleaf]
    exact ih _

/-! ## One row and many -/

/-- What a row comes to in an ensemble: the margin and its leaves, summed up and transformed. -/
def Predicts (b : Booster) (link : Link) (base : Float32) (row : Row) (value : Float32) : Prop :=
  ∃ leaves, Leaves row b.trees leaves ∧
    value = link.transform (leaves.foldl (· + ·) (link.margin base))

theorem predictFrom_ok (b : Booster) (sound : b.Sound) (link : Link) (base : Float32) (row : Row) :
    ∃ value, b.predictFrom link (link.margin base) row = .ok value ∧ b.Predicts link base row value := by
  obtain ⟨leaves, hleaves⟩ := exists_leaves row b.trees sound.2
  refine ⟨_, ?_, leaves, hleaves, rfl⟩
  rw [predictFrom, addLeaves_of_leaves row b.trees leaves hleaves]

theorem mapM_of_forall_ok {α β ε : Type} (f : α → Except ε β) (xs : List α) (h : ∀ x ∈ xs, ∃ y, f x = .ok y) :
    ∃ ys, xs.mapM f = .ok ys ∧ List.Forall₂ (fun x y => f x = .ok y) xs ys := by
  induction xs with
  | nil => exact ⟨[], rfl, .nil⟩
  | cons x xs ih =>
    obtain ⟨y, hy⟩ := h x (by simp)
    obtain ⟨ys, hys, hall⟩ := ih fun z hz => h z (by simp [hz])
    refine ⟨y :: ys, ?_, .cons hy hall⟩
    rw [List.mapM_cons, hy, hys]
    rfl

theorem prepare_eq (b : Booster) :
    b.prepare =
      match b.validate, Link.ofObjective? b.objective, b.base with
      | .error e, _, _ => .error e
      | .ok (), none, _ => .error (.unsupportedObjective b.objective)
      | .ok (), some _, .error e => .error e
      | .ok (), some link, .ok base => .ok (link, link.margin base) := by
  unfold prepare
  cases b.validate with
  | error e => rfl
  | ok u =>
    cases Link.ofObjective? b.objective with
    | none => rfl
    | some link => cases b.base <;> rfl

theorem predict_of_prepare_error (b : Booster) (e : Error) (h : b.prepare = .error e) (rows : List Row) :
    b.predict rows = .error e ∧ ∀ row, b.predictRow row = .error e := by
  refine ⟨?_, fun row => ?_⟩
  · rw [predict, h]
    rfl
  · rw [predictRow, h]
    rfl

theorem predictRow_of_prepare_ok (b : Booster) (link : Link) (margin : Float32)
    (h : b.prepare = .ok (link, margin)) (row : Row) :
    b.predictRow row = b.predictFrom link margin row := by
  rw [predictRow, h]
  rfl

theorem predict_of_prepare_ok (b : Booster) (link : Link) (margin : Float32)
    (h : b.prepare = .ok (link, margin)) (rows : List Row) :
    b.predict rows = rows.mapM (b.predictFrom link margin) := by
  rw [predict, h]
  rfl

/-- **Prediction depends on the rows only for its values.** It fails exactly if the model has a fault,
or its objective has no link, or its base score is no number, the first of these deciding the error.
Otherwise every row has a value, the same in a batch and alone: the margin of the base score and the
leaves of the trees in order, summed up from the left and transformed. What was read from a text has
no fault. -/
theorem predict_rowwise (b : Booster) (rows : List Row) :
    (match b.validate, Link.ofObjective? b.objective, PlainNumber.ofText? b.baseScore with
      | .error e, _, _ => b.predict rows = .error e ∧ ∀ row, b.predictRow row = .error e
      | .ok (), none, _ =>
        b.predict rows = .error (.unsupportedObjective b.objective) ∧
          ∀ row, b.predictRow row = .error (.unsupportedObjective b.objective)
      | .ok (), some _, none =>
        b.predict rows = .error (.invalid (.baseScore b.baseScore)) ∧
          ∀ row, b.predictRow row = .error (.invalid (.baseScore b.baseScore))
      | .ok (), some link, some number =>
        ∃ values, b.predict rows = .ok values ∧
          List.Forall₂ (fun row value => b.predictRow row = .ok value ∧
            b.Predicts link number.toSingle row value) rows values) ∧
    ∀ text, ofBytes text = .ok b → b.validate = .ok () := by
  refine ⟨?_, fun text h => (validate_eq_ok_iff b).mpr (sound_of_ofBytes text b h)⟩
  have hp := prepare_eq b
  cases hv : b.validate with
  | error e =>
    rw [hv] at hp
    exact predict_of_prepare_error b e hp rows
  | ok u =>
    cases hl : Link.ofObjective? b.objective with
    | none =>
      rw [hv, hl] at hp
      exact predict_of_prepare_error b _ hp rows
    | some link =>
      cases hn : PlainNumber.ofText? b.baseScore with
      | none =>
        have hb : b.base = .error (.invalid (.baseScore b.baseScore)) := by rw [base, hn]
        rw [hv, hl, hb] at hp
        exact predict_of_prepare_error b _ hp rows
      | some number =>
        have hb : b.base = .ok number.toSingle := by rw [base, hn]
        rw [hv, hl, hb] at hp
        have hrow := predictFrom_ok b ((validate_eq_ok_iff b).mp hv) link number.toSingle
        obtain ⟨values, hvalues, hall⟩ := mapM_of_forall_ok
          (b.predictFrom link (link.margin number.toSingle)) rows
          fun row _ => (hrow row).imp fun _ h => h.1
        refine ⟨values, (predict_of_prepare_ok b link _ hp rows).trans hvalues, ?_⟩
        refine hall.imp fun row value h => ?_
        obtain ⟨value', hvalue', hpredicts⟩ := hrow row
        rw [h, Except.ok.injEq] at hvalue'
        exact ⟨(predictRow_of_prepare_ok b link _ hp row).trans h, hvalue' ▸ hpredicts⟩

end Booster

end Boosting

end ModelDepot
