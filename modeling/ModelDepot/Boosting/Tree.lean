import ModelDepot.Files.Errno
import ModelDepot.Json.Decode
import ModelDepot.Json.Writer

/-! # Regression trees

A tree is held in arrays, one entry per node. Node `i` is a leaf if its left child is `-1`, and then
its split condition is its value. Any other node sends a row to its left child if the row's feature
is less than the split condition, or is missing and the node sends missing values left; otherwise to
its right child. Children always come after their parent, which is why a walk ends.
-/

namespace ModelDepot

open Json (Decoder Members openRecord)

namespace Boosting

/-! ## Faults -/

/-- What is wrong with a model. -/
inductive Fault where
  | noNodes (tree : Nat)
  | unequalArrays (tree : Nat)
  | invalidChild (tree node : Nat) (child : Int32)
  | malformedNode (node : Nat)
  | unsupportedBooster (name : String)
  | featureCount (text : String)
  | baseScore (text : String)
  deriving DecidableEq

namespace Fault

def text : Fault → String
  | noNodes t => "tree " ++ toString t ++ " has no nodes"
  | unequalArrays t => "tree " ++ toString t ++ " has node arrays of different lengths"
  | invalidChild t n c =>
    "tree " ++ toString t ++ " node " ++ toString n ++ " has invalid child " ++ toString c.toInt
  | malformedNode n => "tree node " ++ toString n ++ " is malformed"
  | unsupportedBooster name => "unsupported booster '" ++ name ++ "'"
  | featureCount s => "num_feature '" ++ s ++ "' is not an integer"
  | baseScore s => "base_score '" ++ s ++ "' is not a number"

end Fault

/-- Why a model cannot be read, written or used. -/
inductive Error where
  | file (path : String) (cause : Files.Errno)
  | format
  | invalid (fault : Fault)
  | unsupportedObjective (name : String)
  deriving DecidableEq

namespace Error

/-- The text of an error, the system's words for a fault of the file system given by `words`. -/
def message (words : Files.Errno → String) : Error → String
  | file path cause => "Booster file I/O failed for " ++ path ++ ": " ++ words cause
  | format => "Invalid booster JSON"
  | invalid fault => "Invalid booster model: " ++ fault.text
  | unsupportedObjective name => "Unsupported objective for prediction: " ++ name

end Error

/-! ## Trees -/

/-- A row of features; those beyond its end are missing, as is one that is not a number. -/
abbrev Row := List Float32

/-- A regression tree in arrays. `others` holds the members of its document that are not named
here. -/
structure Tree where
  leftChildren : Array Int32
  rightChildren : Array Int32
  splitIndices : Array UInt32
  splitConditions : Array Float32
  defaultLeft : Array Bool
  others : Members

namespace Tree

def leaf (value : Float32) : Tree :=
  ⟨#[-1], #[-1], #[0], #[value], #[false], []⟩

/-- A tree that splits once, on `feature < threshold`. -/
def stump (feature : UInt32) (threshold left right : Float32) (missingLeft : Bool) : Tree :=
  { leftChildren := #[1, -1, -1]
    rightChildren := #[2, -1, -1]
    splitIndices := #[feature, 0, 0]
    splitConditions := #[threshold, left, right]
    defaultLeft := #[missingLeft, false, false]
    others := [] }

def size (t : Tree) : Nat := t.leftChildren.size

/-! ## Soundness -/

/-- A child comes after its parent and is there. Children are words of 32 bits, and their parent is
compared with them as such a word. -/
def isChildOf (t : Tree) (node : Nat) (child : Int32) : Bool :=
  Int32.ofNat node < child && 0 ≤ child.toInt && child.toInt < t.size

/-- The first child of a node that is not one, the left child first. -/
def badChild? (t : Tree) (node : Nat) : Option Int32 :=
  match t.leftChildren[node]?, t.rightChildren[node]? with
  | some left, some right =>
    if left = -1 then none
    else if ! t.isChildOf node left then some left
    else if ! t.isChildOf node right then some right
    else none
  | _, _ => none

/-- All arrays have an entry for every node. -/
def isRectangular (t : Tree) : Bool :=
  t.rightChildren.size == t.size && t.splitIndices.size == t.size &&
    t.splitConditions.size == t.size && t.defaultLeft.size == t.size

/-- What is wrong with the tree at a place in the model. -/
def fault? (t : Tree) (index : Nat) : Option Fault :=
  if t.size = 0 then some (.noNodes index)
  else if ! t.isRectangular then some (.unequalArrays index)
  else (List.range t.size).findSome? fun node =>
    (t.badChild? node).map (.invalidChild index node)

/-! ## Prediction -/

/-- A row's feature at a node goes left. -/
def goesLeft (row : Row) (feature : UInt32) (condition : Float32) (missingLeft : Bool) : Bool :=
  match row[feature.toNat]? with
  | some x => if x.isNaN then missingLeft else x < condition
  | none => missingLeft

/-- The value of the leaf that a row reaches from a node. The walk only goes forward; a node that
lacks an entry or sends the row back is malformed. -/
def leafFrom (t : Tree) (row : Row) (node : Nat) : Except Fault Float32 :=
  if inside : node < t.leftChildren.size then
    match t.splitConditions[node]? with
    | none => .error (.malformedNode node)
    | some condition =>
      let left := t.leftChildren[node]
      if left = -1 then .ok condition
      else
        match t.rightChildren[node]?, t.splitIndices[node]?, t.defaultLeft[node]? with
        | some right, some feature, some missingLeft =>
          let next := if goesLeft row feature condition missingLeft then left else right
          if forward : (node : Int) < next.toInt then leafFrom t row next.toInt.toNat
          else .error (.malformedNode node)
        | _, _, _ => .error (.malformedNode node)
  else .error (.malformedNode node)
  termination_by t.leftChildren.size - node
  decreasing_by exact Nat.sub_lt_sub_left inside (Int.lt_toNat.mpr forward)

/-- The value of the leaf that a row reaches. -/
def leafValue (t : Tree) (row : Row) : Except Fault Float32 := t.leafFrom row 0

/-! ## The document of a tree -/

/-- The names of the fields, in order. -/
def fields : List String :=
  ["left_children", "right_children", "split_indices", "split_conditions", "default_left"]

/-- Reads a direction: a truth value, or a whole number of 64 bits that is zero for right. -/
def directionDecoder : Decoder Bool
  | _, .bool b => some b
  | depth, d => (Decoder.whole (-0x8000_0000_0000_0000) 0x7fff_ffff_ffff_ffff depth d).map (· != 0)

def childDecoder : Decoder Int32 := fun depth d => (Decoder.int32 depth d).map Int32.ofInt

def wordDecoder : Decoder UInt32 := fun depth d => (Decoder.unsigned UInt32.size depth d).map UInt32.ofNat

def arrayDecoder {α : Type} (item : Decoder α) : Decoder (Array α) :=
  fun depth d => (Decoder.list item depth d).map List.toArray

def decoder : Decoder Tree := (openRecord fields).andThen fun (r, others) => do
  return {
    leftChildren := ← r.required "left_children" (arrayDecoder childDecoder)
    rightChildren := ← r.required "right_children" (arrayDecoder childDecoder)
    splitIndices := ← r.required "split_indices" (arrayDecoder wordDecoder)
    splitConditions := ← r.required "split_conditions" (arrayDecoder .single)
    defaultLeft := ← r.required "default_left" (arrayDecoder directionDecoder)
    others }

/-- A list of entries as a value. -/
def arrayJson {α : Type} (item : α → Json) (xs : Array α) : Json := .array (xs.toList.map item)

/-- Writes a tree: its fields in order, then the other members. -/
def toJson (t : Tree) : Json := .object ([
  ("left_children", arrayJson (fun c => .ofInt c.toInt) t.leftChildren),
  ("right_children", arrayJson (fun c => .ofInt c.toInt) t.rightChildren),
  ("split_indices", arrayJson (fun i => .ofNat i.toNat) t.splitIndices),
  ("split_conditions", arrayJson .ofSingle t.splitConditions),
  ("default_left", arrayJson (fun b => .ofNat b.toNat) t.defaultLeft)] ++ t.others)

/-- Equality of trees, numbers compared by value. -/
def same (s t : Tree) : Bool :=
  s.leftChildren == t.leftChildren && s.rightChildren == t.rightChildren &&
    s.splitIndices == t.splitIndices && s.splitConditions == t.splitConditions &&
    s.defaultLeft == t.defaultLeft && Json.sameMembers s.others t.others

end Tree

end Boosting

end ModelDepot
