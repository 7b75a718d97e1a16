import Mathlib.Logic.Relation
import ModelDepot.Proofs.Boosting.Unfolding

/-! # Walks through any tree

Trees need not be sound to be walked. A walk takes one turn at each node that it stands at: it comes to a leaf, goes
on to a child with a greater number, or stops because an entry is missing or the child does not come later. So a walk
ends in every tree, and it comes to a leaf exactly if the row's branches lead to one and never back.
-/

namespace ModelDepot

namespace Boosting

namespace Tree

variable {t : Tree} {row : Row} {node next : Nat} {visited : List Nat} {value : Float32}
  {result : Except Fault Float32}

/-! ## One turn -/

/-- What one turn of a walk finds: the value of a leaf, or the node that comes next. -/
inductive Turn where
  | leaf (value : Float32)
  | next (node : Nat)

/-- The entry of an array for a node. -/
def entry {α : Type} (node : Nat) (xs : Array α) : Except Fault α :=
  match xs[node]? with
  | some x => .ok x
  | none => .error (.malformedNode node)

/-- The node that a child link names: the word is widened with its sign, and then read without one. -/
def nodeOf (child : Int32) : Nat := child.toInt64.toUInt64.toNat

/-- One turn of a walk. The node is compared with the child as a word of 32 bits, whatever its size. -/
def turn (t : Tree) (row : Row) (node : Nat) : Except Fault Turn := do
  let left ← entry node t.leftChildren
  let condition ← entry node t.splitConditions
  if left = -1 then return .leaf condition
  let right ← entry node t.rightChildren
  let feature ← entry node t.splitIndices
  let missingLeft ← entry node t.defaultLeft
  let child := if goesLeft row feature condition missingLeft then left else right
  if child ≤ Int32.ofNat node then throw (.malformedNode node)
  return .next (nodeOf child)

/-- The nodes at which a walk takes its turns, one after the other, and what it comes to. -/
inductive Trail (t : Tree) (row : Row) : Nat → List Nat → Except Fault Float32 → Prop where
  | leaf {node : Nat} {value : Float32} (found : t.turn row node = .ok (.leaf value)) :
      Trail t row node [node] (.ok value)
  | stop {node : Nat} {fault : Fault} (failed : t.turn row node = .error fault) :
      Trail t row node [node] (.error fault)
  | next {node n : Nat} {visited : List Nat} {result : Except Fault Float32} (goes : t.turn row node = .ok (.next n))
      (on : Trail t row n visited result) : Trail t row node (node :: visited) result

/-! ## Branches -/

/-- A node is a leaf with a value. -/
structure LeafAt (t : Tree) (node : Nat) (value : Float32) : Prop where
  link : t.leftChildren[node]? = some (-1)
  at' : t.splitConditions[node]? = some value

/-- A row is sent from a node to another. The node is no leaf, and all arrays have an entry for it. -/
inductive Branch (t : Tree) (row : Row) (node next : Nat) : Prop where
  | mk {left right : Int32} {feature : UInt32} {condition : Float32} {missingLeft : Bool}
      (first : t.leftChildren[node]? = some left) (inner : left ≠ -1) (second : t.rightChildren[node]? = some right)
      (asks : t.splitIndices[node]? = some feature) (at' : t.splitConditions[node]? = some condition)
      (missing : t.defaultLeft[node]? = some missingLeft)
      (there : (if goesLeft row feature condition missingLeft then left else right).toInt = next)

/-- A row is sent to a later node. -/
def Onward (t : Tree) (row : Row) (node next : Nat) : Prop := t.Branch row node next ∧ node < next

/-- All arrays have an entry for a node. -/
structure Covers (t : Tree) (node : Nat) : Prop where
  left : node < t.leftChildren.size
  right : node < t.rightChildren.size
  index : node < t.splitIndices.size
  condition : node < t.splitConditions.size
  default : node < t.defaultLeft.size

theorem Branch.covers (branch : t.Branch row node next) : t.Covers node := by
  obtain ⟨first, -, second, asks, at', missing, -⟩ := branch
  exact ⟨(Array.getElem?_eq_some_iff.mp first).1, (Array.getElem?_eq_some_iff.mp second).1,
    (Array.getElem?_eq_some_iff.mp asks).1, (Array.getElem?_eq_some_iff.mp at').1,
    (Array.getElem?_eq_some_iff.mp missing).1⟩

theorem Branch.small (branch : t.Branch row node next) : next < 0x8000_0000 := by
  obtain ⟨-, -, -, -, -, -, there⟩ := branch
  have bounded := there ▸ Int32.toInt_lt _
  omega

/-! ## What a turn finds -/

theorem le_ofNat_iff (small : node < 0x8000_0000) (child : Int32) :
    child ≤ Int32.ofNat node ↔ ¬ (node : Int) < child.toInt := by
  rw [Int32.le_iff_toInt_le, Int32.toInt_ofNat_of_lt small, Int.not_lt]

theorem nodeOf_eq {child : Int32} (there : child.toInt = next) : nodeOf child = next := by
  have same := Int32.toInt_toInt64 child
  have positive : 0 ≤ child.toInt64 := by
    rw [Int64.le_iff_toInt_le, same, there]
    exact Int.natCast_nonneg next
  rw [nodeOf, Int64.toNat_toUInt64_of_le positive, Int64.toNatClampNeg, same, there, Int.toNat_natCast]

theorem entry_of_some {α : Type} {xs : Array α} {x : α} (found : xs[node]? = some x) : entry node xs = .ok x := by
  rw [entry, found]

theorem entry_of_none {α : Type} {xs : Array α} (absent : xs[node]? = none) :
    entry node xs = .error (.malformedNode node) := by
  rw [entry, absent]

theorem turn_of_leaf (leaf : t.LeafAt node value) : t.turn row node = .ok (.leaf value) := by
  simp [turn, entry_of_some leaf.link, entry_of_some leaf.at', bind, Except.bind, pure, Except.pure]

theorem turn_of_onward (small : node < 0x8000_0000) (onward : t.Onward row node next) :
    t.turn row node = .ok (.next next) := by
  obtain ⟨⟨first, inner, second, asks, at', missing, there⟩, forward⟩ := onward
  have ahead := mt (le_ofNat_iff small _).mp (not_not_intro (there ▸ Int.ofNat_lt.mpr forward))
  simp only [turn, entry_of_some first, entry_of_some second, entry_of_some asks, entry_of_some at',
    entry_of_some missing, bind, Except.bind, pure, Except.pure, if_neg inner, if_neg ahead, nodeOf_eq there]

theorem turn_of_neither (small : node < 0x8000_0000) (leafless : ∀ value, ¬ t.LeafAt node value)
    (still : ∀ next, ¬ t.Onward row node next) : t.turn row node = .error (.malformedNode node) := by
  cases first : t.leftChildren[node]? with
  | none => simp only [turn, entry_of_none first, bind, Except.bind]
  | some left =>
  cases at' : t.splitConditions[node]? with
  | none => simp only [turn, entry_of_some first, entry_of_none at', bind, Except.bind]
  | some condition =>
  have inner : left ≠ -1 := fun end' => leafless condition ⟨end' ▸ first, at'⟩
  cases second : t.rightChildren[node]? with
  | none =>
    simp only [turn, entry_of_some first, entry_of_some at', entry_of_none second, if_neg inner, bind, Except.bind]
  | some right =>
  cases asks : t.splitIndices[node]? with
  | none =>
    simp only [turn, entry_of_some first, entry_of_some at', entry_of_some second, entry_of_none asks, if_neg inner,
      bind, Except.bind]
  | some feature =>
  cases missing : t.defaultLeft[node]? with
  | none =>
    simp only [turn, entry_of_some first, entry_of_some at', entry_of_some second, entry_of_some asks,
      entry_of_none missing, if_neg inner, bind, Except.bind]
  | some missingLeft =>
  -- All entries are there, and so the child is the only thing that can stop the walk.
  have back : (if goesLeft row feature condition missingLeft then left else right) ≤ Int32.ofNat node := by
    rw [le_ofNat_iff small]
    intro forward
    have there := (Int.toNat_of_nonneg (Int.le_trans (Int.natCast_nonneg node) (Int.le_of_lt forward))).symm
    exact still _ ⟨⟨first, inner, second, asks, at', missing, there⟩, Int.lt_toNat.mpr forward⟩
  simp only [turn, entry_of_some first, entry_of_some at', entry_of_some second, entry_of_some asks,
    entry_of_some missing, if_neg inner, if_pos back, bind, Except.bind, throw, throwThe, MonadExceptOf.throw]

theorem turn_cases (t : Tree) (row : Row) (small : node < 0x8000_0000) :
    (∃ value, t.LeafAt node value ∧ t.turn row node = .ok (.leaf value)) ∨
      (∃ next, t.Onward row node next ∧ t.turn row node = .ok (.next next)) ∨
        ((∀ value, ¬ t.LeafAt node value) ∧ (∀ next, ¬ t.Onward row node next)) ∧
          t.turn row node = .error (.malformedNode node) := by
  by_cases leaf : ∃ value, t.LeafAt node value
  · exact .inl (leaf.imp fun _ at' => ⟨at', turn_of_leaf at'⟩)
  by_cases onward : ∃ next, t.Onward row node next
  · exact .inr (.inl (onward.imp fun _ on => ⟨on, turn_of_onward small on⟩))
  · have leafless := not_exists.mp leaf
    have still := not_exists.mp onward
    exact .inr (.inr ⟨⟨leafless, still⟩, turn_of_neither small leafless still⟩)

/-! ## Turns and walks -/

theorem leafFrom_of_onward (onward : t.Onward row node next) : t.leafFrom row node = t.leafFrom row next := by
  obtain ⟨⟨first, inner, second, asks, at', missing, there⟩, forward⟩ := onward
  rw [leafFrom_of_split first inner second asks at' missing (there ▸ Int.ofNat_lt.mpr forward), there,
    Int.toNat_natCast]

theorem leafFrom_of_neither (leafless : ∀ value, ¬ t.LeafAt node value) (still : ∀ next, ¬ t.Onward row node next) :
    t.leafFrom row node = .error (.malformedNode node) := by
  rw [leafFrom]
  by_cases inside : node < t.leftChildren.size
  · have first := Array.getElem?_eq_getElem inside
    rw [dif_pos inside]
    cases at' : t.splitConditions[node]? with
    | none => rfl
    | some condition =>
      have inner : t.leftChildren[node] ≠ -1 := fun end' => leafless condition ⟨end' ▸ first, at'⟩
      simp only [if_neg inner]
      split
      · rename_i right feature missingLeft second asks missing
        refine dif_neg fun forward => ?_
        have there := (Int.toNat_of_nonneg (Int.le_trans (Int.natCast_nonneg node) (Int.le_of_lt forward))).symm
        exact still _ ⟨⟨first, inner, second, asks, at', missing, there⟩, Int.lt_toNat.mpr forward⟩
      · rfl
  · rw [dif_neg inside]

/-- A walk from a node that fits a word takes its turns and ends, whatever the arrays are. -/
theorem leafFrom_trail (t : Tree) (row : Row) (node : Nat) (small : node < 0x8000_0000) :
    ∃ visited, t.Trail row node visited (t.leafFrom row node) := by
  obtain ⟨value, leaf, found⟩ | ⟨next, onward, goes⟩ | ⟨⟨leafless, still⟩, failed⟩ := turn_cases t row small
  · rw [leafFrom_of_leaf leaf.link leaf.at']
    exact ⟨_, .leaf found⟩
  · have inside := onward.1.covers.left
    obtain ⟨visited, trail⟩ := leafFrom_trail t row next onward.1.small
    rw [leafFrom_of_onward onward]
    exact ⟨_, .next goes trail⟩
  · rw [leafFrom_of_neither leafless still]
    exact ⟨_, .stop failed⟩
termination_by t.leftChildren.size - node
decreasing_by exact Nat.sub_lt_sub_left inside onward.2

theorem Trail.unique {visited visited' : List Nat} {result result' : Except Fault Float32}
    (trail : t.Trail row node visited result) (trail' : t.Trail row node visited' result') :
    visited' = visited ∧ result' = result := by
  induction trail generalizing visited' result' with
  | leaf found =>
    cases trail' with
    | leaf found' => cases found'.symm.trans found; exact ⟨rfl, rfl⟩
    | stop failed' => cases failed'.symm.trans found
    | next goes' => cases goes'.symm.trans found
  | stop failed =>
    cases trail' with
    | leaf found' => cases found'.symm.trans failed
    | stop failed' => cases failed'.symm.trans failed; exact ⟨rfl, rfl⟩
    | next goes' => cases goes'.symm.trans failed
  | next goes on ih =>
    cases trail' with
    | leaf found' => cases found'.symm.trans goes
    | stop failed' => cases failed'.symm.trans goes
    | next goes' on' =>
      cases goes'.symm.trans goes
      obtain ⟨rfl, rfl⟩ := ih on'
      exact ⟨rfl, rfl⟩

/-- How a walk ends at a node: with its value if it is a leaf, and else with the fault that names it. -/
inductive EndsAt (t : Tree) (row : Row) (last : Nat) : Except Fault Float32 → Prop where
  | leaf {value : Float32} (leaf : t.LeafAt last value) : EndsAt t row last (.ok value)
  | stop (leafless : ∀ value, ¬ t.LeafAt last value) (still : ∀ next, ¬ t.Onward row last next) :
      EndsAt t row last (.error (.malformedNode last))

/-- What a walk has visited: later and later nodes that fit a word, each of which but the last has an entry in every
array, and how it ended. -/
structure Visits (t : Tree) (row : Row) (node : Nat) (before : List Nat) (last : Nat) (result : Except Fault Float32) :
    Prop where
  onward : ∀ n ∈ before ++ [last], node ≤ n
  later : (before ++ [last]).Pairwise (· < ·)
  small : ∀ n ∈ before ++ [last], n < 0x8000_0000
  covered : ∀ n ∈ before, t.Covers n
  leads : Relation.ReflTransGen (t.Onward row) node last
  ends : t.EndsAt row last result

theorem EndsAt.visits (ends : t.EndsAt row node result) (small : node < 0x8000_0000) :
    t.Visits row node [] node result where
  onward _ at' := Nat.le_of_eq (List.mem_singleton.mp at').symm
  later := List.pairwise_singleton _ _
  small _ at' := List.mem_singleton.mp at' ▸ small
  covered _ at' := absurd at' List.not_mem_nil
  leads := .refl
  ends := ends

theorem Visits.cons {before : List Nat} {last : Nat} (visits : t.Visits row next before last result)
    (onward : t.Onward row node next) (small : node < 0x8000_0000) :
    t.Visits row node (node :: before) last result where
  onward n at' := by
    obtain rfl | at' := List.mem_cons.mp at'
    · exact Nat.le_refl _
    · exact Nat.le_trans (Nat.le_of_lt onward.2) (visits.onward n at')
  later := List.pairwise_cons.mpr ⟨fun n at' => Nat.lt_of_lt_of_le onward.2 (visits.onward n at'), visits.later⟩
  small n at' := by
    obtain rfl | at' := List.mem_cons.mp at'
    · exact small
    · exact visits.small n at'
  covered n at' := by
    obtain rfl | at' := List.mem_cons.mp at'
    · exact onward.1.covers
    · exact visits.covered n at'
  leads := .head onward visits.leads
  ends := visits.ends

/-- What one turn keeps, a whole walk keeps. -/
theorem Trail.visits (trail : t.Trail row node visited result) (small : node < 0x8000_0000) :
    ∃ before last, visited = before ++ [last] ∧ t.Visits row node before last result := by
  induction trail with
  | @leaf node value found =>
    obtain ⟨value', leaf, found'⟩ | ⟨next, -, goes⟩ | ⟨-, failed⟩ := turn_cases t row small
    · cases found'.symm.trans found
      exact ⟨[], node, rfl, (EndsAt.leaf leaf).visits small⟩
    · cases goes.symm.trans found
    · cases failed.symm.trans found
  | @stop node fault failed =>
    obtain ⟨value', -, found⟩ | ⟨next, -, goes⟩ | ⟨⟨leafless, still⟩, failed'⟩ := turn_cases t row small
    · cases found.symm.trans failed
    · cases goes.symm.trans failed
    · cases failed'.symm.trans failed
      exact ⟨[], node, rfl, (EndsAt.stop leafless still).visits small⟩
  | @next node n visited result goes on ih =>
    obtain ⟨value', -, found⟩ | ⟨next, onward, goes'⟩ | ⟨-, failed⟩ := turn_cases t row small
    · cases found.symm.trans goes
    · cases goes'.symm.trans goes
      obtain ⟨before, last, rfl, visits⟩ := ih onward.1.small
      exact ⟨node :: before, last, rfl, visits.cons onward small⟩
    · cases failed.symm.trans goes

theorem leafFrom_of_leads (leads : Relation.ReflTransGen (t.Onward row) node next) :
    t.leafFrom row node = t.leafFrom row next := by
  induction leads using Relation.ReflTransGen.head_induction_on with
  | refl => rfl
  | head onward _ ih => exact (leafFrom_of_onward onward).trans ih

/-- **Every tree can be walked**, whatever its links and the lengths of its arrays. The turns from the first node are
settled and end; they are at later and later nodes, none of which is too large for the word that it is compared as, and
every array has an entry for all of them but the last. The walk comes to a value exactly if the row is sent on, always
to a later node, to a leaf with that value, and else it stops with the fault that names its last node. -/
theorem leafValue_follows (t : Tree) (row : Row) :
    ∃ before last,
      (∀ visited result, t.Trail row 0 visited result ↔ visited = before ++ [last] ∧ result = t.leafValue row) ∧
        t.Visits row 0 before last (t.leafValue row) ∧
          ∀ value, t.leafValue row = .ok value ↔
            ∃ leaf, Relation.ReflTransGen (t.Onward row) 0 leaf ∧ t.LeafAt leaf value := by
  obtain ⟨visited, trail⟩ := leafFrom_trail t row 0 (by decide)
  obtain ⟨before, last, rfl, visits⟩ := trail.visits (by decide)
  refine ⟨before, last, fun visited' result' => ⟨trail.unique, ?_⟩, visits, fun value => ⟨fun found => ?_, ?_⟩⟩
  · rintro ⟨rfl, rfl⟩
    exact trail
  · have ends : t.EndsAt row last (.ok value) := found ▸ visits.ends
    cases ends with
    | leaf leaf => exact ⟨last, visits.leads, leaf⟩
  · rintro ⟨leaf, leads, at'⟩
    exact (leafFrom_of_leads leads).trans (leafFrom_of_leaf at'.link at'.at')

/-- The first node sends every row to the last one, and that one back to the leaf between them. -/
def returning : Tree where
  leftChildren := #[2, -1, 1]
  rightChildren := #[2, -1, 1]
  splitIndices := #[0, 0, 0]
  splitConditions := #[Float32.ofBits 0, Float32.ofBits 0x3f800000, Float32.ofBits 0]
  defaultLeft := #[false, false, false]
  others := []

/-- A branch that leads back to a leaf is not followed, though every array has an entry for the nodes on it. -/
theorem leafValue_returning :
    Relation.ReflTransGen (returning.Branch []) 0 1 ∧ returning.LeafAt 1 (Float32.ofBits 0x3f800000) ∧
      (∀ node < 3, returning.Covers node) ∧ returning.leafValue [] = .error (.malformedNode 2) := by
  have onto : returning.Branch [] 0 2 := .mk rfl (by decide) rfl rfl rfl rfl rfl
  have back : returning.Branch [] 2 1 := .mk rfl (by decide) rfl rfl rfl rfl rfl
  refine ⟨.head onto (.single back), ⟨rfl, rfl⟩, fun node inside => ⟨inside, inside, inside, inside, inside⟩, ?_⟩
  rw [leafValue, leafFrom_of_onward ⟨onto, by decide⟩]
  exact leafFrom_of_back rfl (by decide) rfl rfl rfl rfl (by decide)

end Tree

end Boosting

end ModelDepot
