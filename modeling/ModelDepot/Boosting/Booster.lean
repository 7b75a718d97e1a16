import ModelDepot.Boosting.Tree
import ModelDepot.Decimal.Layout
import ModelDepot.Decimal.Reading

/-! # Boosted ensembles of trees

A `Booster` is a list of trees with an objective. Its prediction for a row starts at the margin of
the base score, adds the tree's leaves in order, and passes the sum through the objective's link.
The document of a booster has sections; members that this library does not name are kept with their
section, so that a model survives being read and written.
-/

namespace ModelDepot

open Json (Decoder Members openRecord record)

namespace Boosting

/-! ## Objectives -/

/-- How margins and predictions are related. -/
inductive Link where
  | identity
  | logistic
  | log
  deriving DecidableEq, Repr

namespace Link

def ofObjective? : String → Option Link
  | "reg:squarederror" => some identity
  | "reg:squaredlogerror" => some identity
  | "reg:absoluteerror" => some identity
  | "reg:pseudohubererror" => some identity
  | "reg:linear" => some identity
  | "binary:logistic" => some logistic
  | "reg:logistic" => some logistic
  | "count:poisson" => some log
  | "reg:gamma" => some log
  | "reg:tweedie" => some log
  | _ => none

def margin : Link → Float32 → Float32
  | identity, b => b
  | logistic, b => (b / (1 - b)).log
  | log, b => b.log

def transform : Link → Float32 → Float32
  | identity, m => m
  | logistic, m => 1 / (1 + (-m).exp)
  | log, m => m.exp

end Link

/-! ## Boosters -/

/-- The members of each section of a booster's document that have no field of their own. -/
structure Others where
  learner : Members
  parameters : Members
  objective : Members
  ensemble : Members
  model : Members

/-- A boosted ensemble of trees. The base score and the number of features are kept as they are
spelled. -/
structure Booster where
  baseScore : String
  featureCount : String
  objective : String
  kind : String
  trees : List Tree
  treeInfo : List Int32
  version : List UInt32
  others : Others

namespace Booster

/-- The only kind of booster that is supported. -/
def treeKind : String := "gbtree"

def new (objective : String) (baseScore : Float32) (features : Nat) : Booster :=
  { baseScore := plainSingle baseScore
    featureCount := toString features
    objective
    kind := treeKind
    trees := []
    treeInfo := []
    version := [2, 0, 0]
    others := ⟨[], [], [], [], []⟩ }

def push (b : Booster) (t : Tree) : Booster :=
  { b with trees := b.trees ++ [t], treeInfo := b.treeInfo ++ [0] }

/-- The number of features, if its spelling is one of 64 bits. -/
def features (b : Booster) : Except Error Nat :=
  match plainNat? UInt64.size b.featureCount with
  | some n => .ok n
  | none => .error (.invalid (.featureCount b.featureCount))

/-- The base score, if its spelling is a number. -/
def base (b : Booster) : Except Error Float32 :=
  match PlainNumber.ofText? b.baseScore with
  | some n => .ok n.toSingle
  | none => .error (.invalid (.baseScore b.baseScore))

/-- The first fault of a list of trees, the first of which stands at a place in the model. -/
def treesFault? (index : Nat) : List Tree → Option Fault
  | [] => none
  | t :: rest => (t.fault? index).or (treesFault? (index + 1) rest)

def fault? (b : Booster) : Option Fault :=
  if b.kind ≠ treeKind then some (.unsupportedBooster b.kind) else treesFault? 0 b.trees

def validate (b : Booster) : Except Error Unit :=
  match b.fault? with
  | some f => .error (.invalid f)
  | none => .ok ()

/-! ## Prediction -/

/-- Adds the leaves that a row reaches to a margin, tree by tree. -/
def addLeaves (row : Row) (margin : Float32) : List Tree → Except Fault Float32
  | [] => .ok margin
  | t :: rest =>
    match t.leafValue row with
    | .ok v => addLeaves row (margin + v) rest
    | .error f => .error f

/-- What prediction needs: the link and the margin of the base score of a sound model. -/
def prepare (b : Booster) : Except Error (Link × Float32) := do
  b.validate
  match Link.ofObjective? b.objective with
  | none => throw (.unsupportedObjective b.objective)
  | some link =>
    let base ← b.base
    return (link, link.margin base)

/-- The prediction for a row from a link and a starting margin. -/
def predictFrom (b : Booster) (link : Link) (margin : Float32) (row : Row) : Except Error Float32 :=
  match addLeaves row margin b.trees with
  | .ok m => .ok (link.transform m)
  | .error f => .error (.invalid f)

def predictRow (b : Booster) (row : Row) : Except Error Float32 := do
  let (link, margin) ← b.prepare
  b.predictFrom link margin row

/-- The predictions for a batch of rows. -/
def predict (b : Booster) (rows : List Row) : Except Error (List Float32) := do
  let (link, margin) ← b.prepare
  rows.mapM (b.predictFrom link margin)

/-! ## The document of a booster -/

/-- The names of the fields of a booster, in order. -/
def fields : List String := ["learner", "version"]

/-- The names of the fields of its learner, in order. -/
def learnerFields : List String := ["learner_model_param", "objective", "gradient_booster"]

/-- The names of the fields of the learner's parameters, in order. -/
def parameterFields : List String := ["base_score", "num_feature"]

/-- The names of the fields of the learner's objective. -/
def objectiveFields : List String := ["name"]

/-- The names of the fields of the learner's ensemble, in order. -/
def ensembleFields : List String := ["name", "model"]

/-- The names of the fields of the ensemble's model, in order. -/
def modelFields : List String := ["trees", "tree_info"]

def looseDecoder : Decoder Booster := (record fields).andThen fun top => do
  let (learner, learnerOthers) ← top.required "learner" (openRecord learnerFields)
  let (parameters, parameterOthers) ← learner.required "learner_model_param" (openRecord parameterFields)
  let (objective, objectiveOthers) ← learner.required "objective" (openRecord objectiveFields)
  let (ensemble, ensembleOthers) ← learner.required "gradient_booster" (openRecord ensembleFields)
  let (model, modelOthers) ← ensemble.required "model" (openRecord modelFields)
  return {
    baseScore := ← parameters.required "base_score" .text
    featureCount := ← parameters.required "num_feature" .text
    objective := ← objective.required "name" .text
    kind := ← ensemble.required "name" .text
    trees := ← model.required "trees" (.list Tree.decoder)
    treeInfo := ← model.withDefault "tree_info" [] (.list Tree.childDecoder)
    version := ← top.required "version" (.list Tree.wordDecoder)
    others := ⟨learnerOthers, parameterOthers, objectiveOthers, ensembleOthers, modelOthers⟩ }

def decoder : Decoder Booster := looseDecoder.filtered (·.fault?.isNone)

/-- Writes a booster: the fields of each section in order, then its other members. -/
def toJson (b : Booster) : Json := .object [
  ("learner", .object ([
    ("learner_model_param", .object ([
      ("base_score", .string b.baseScore),
      ("num_feature", .string b.featureCount)] ++ b.others.parameters)),
    ("objective", .object ([("name", .string b.objective)] ++ b.others.objective)),
    ("gradient_booster", .object ([
      ("name", .string b.kind),
      ("model", .object ([
        ("trees", .array (b.trees.map Tree.toJson)),
        ("tree_info", .array (b.treeInfo.map fun c => .ofInt c.toInt))] ++ b.others.model))] ++
      b.others.ensemble))] ++ b.others.learner)),
  ("version", .array (b.version.map fun w => .ofNat w.toNat))]

/-- The booster that a text spells, if it is sound. -/
def ofBytes (text : List UInt8) : Except Error Booster :=
  match looseDecoder.ofBytes? text with
  | none => .error .format
  | some b => b.validate.map fun _ => b

def toBytes (b : Booster) : List UInt8 := b.toJson.toBytes

/-- Equality of lists of trees, numbers compared by value. -/
def sameTrees : List Tree → List Tree → Bool
  | [], [] => true
  | s :: ss, t :: ts => s.same t && sameTrees ss ts
  | _, _ => false

def sameOthers (a b : Others) : Bool :=
  Json.sameMembers a.learner b.learner && Json.sameMembers a.parameters b.parameters &&
    Json.sameMembers a.objective b.objective && Json.sameMembers a.ensemble b.ensemble &&
    Json.sameMembers a.model b.model

/-- Equality of boosters, numbers compared by value. -/
def same (a b : Booster) : Bool :=
  a.baseScore == b.baseScore && a.featureCount == b.featureCount && a.objective == b.objective &&
    a.kind == b.kind && sameTrees a.trees b.trees && a.treeInfo == b.treeInfo &&
    a.version == b.version && sameOthers a.others b.others

end Booster

end Boosting

end ModelDepot
