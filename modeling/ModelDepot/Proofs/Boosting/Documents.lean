import ModelDepot.Boosting.Booster
import ModelDepot.Proofs.Boosting.Prediction
import ModelDepot.Proofs.Json.Values

/-! # Boosters that are read back

A booster's text is read back as the booster exactly if the booster is sound and its split conditions are
finite. Anything else that is written cannot be read.
-/

namespace ModelDepot

open Json (Decoder Members NoneOf openRecord openRecord_spelled section_of_lookup required_of_lookup
  noneOf_of_required mem_of_list)

namespace Boosting

/-! ## Entries -/

/-- A single is written as a text that is read as a double which rounds to it. -/
def SingleRereads (x : Float32) : Prop :=
  ∃ y : Float, (Json.Number.single x).spelled = .number (.double y) ∧ Json.nearestSingle y = x

theorem childDecoder_spelled (depth : Nat) (c : Int32) :
    Tree.childDecoder depth (Json.ofInt c.toInt).spelled = some c := by
  have low := c.le_toInt
  have high := c.toInt_lt
  rw [Json.ofInt, Json.spelled, Json.Number.spelled_whole _ (by omega) (by omega), Tree.childDecoder,
    Decoder.int32, Decoder.whole, if_pos (by omega), Option.map_some, Int32.ofInt_toInt]

theorem wordDecoder_spelled (depth : Nat) (w : UInt32) :
    Tree.wordDecoder depth (Json.ofNat w.toNat).spelled = some w := by
  have high := w.toNat_lt
  have fits : 0 ≤ (w.toNat : Int) ∧ (w.toNat : Int) ≤ UInt32.size - 1 := by
    simp only [UInt32.size]
    omega
  rw [Json.ofNat, Json.spelled, Json.Number.spelled_whole _ (by omega) (by omega), Tree.wordDecoder,
    Decoder.unsigned, Decoder.whole, if_pos fits, Option.map_some, Option.map_some, Int.toNat_natCast,
    UInt32.ofNat_toNat]

theorem directionDecoder_spelled (depth : Nat) (b : Bool) :
    Tree.directionDecoder depth (Json.ofNat b.toNat).spelled = some b := by
  have high := b.toNat_lt
  rw [Json.ofNat, Json.spelled, Json.Number.spelled_whole _ (by omega) (by omega)]
  cases b <;> rfl

theorem single_spelled (depth : Nat) (x : Float32) (finite : x.isFinite) (rereads : SingleRereads x) :
    Decoder.single depth (Json.ofSingle x).spelled = some x := by
  obtain ⟨y, spelled, rounds⟩ := rereads
  rw [Json.ofSingle, if_pos finite, Json.spelled, spelled, Decoder.single, rounds]

theorem single_spelled_eq_none (depth : Nat) (x : Float32) (h : ¬ x.isFinite) :
    Decoder.single depth (Json.ofSingle x).spelled = none := by
  rw [Json.ofSingle, if_neg h, Json.spelled, Decoder.single]
  all_goals simp

theorem arrayDecoder_spelled {α : Type} (item : Decoder α) (write : α → Json) (xs : Array α) (depth : Nat)
    (h : ∀ x ∈ xs, item depth (write x).spelled = some x) :
    Tree.arrayDecoder item (depth + 1) (Tree.arrayJson write xs).spelled = some xs := by
  rw [Tree.arrayDecoder, Tree.arrayJson, Json.list_spelled item write xs.toList depth (by simpa using h)]
  rfl

theorem arrayDecoder_spelled_eq_none {α : Type} (item : Decoder α) (write : α → Json) (xs : Array α)
    (depth : Nat) (x : α) (hx : x ∈ xs) (h : item depth (write x).spelled = none) :
    Tree.arrayDecoder item (depth + 1) (Tree.arrayJson write xs).spelled = none := by
  rw [Tree.arrayDecoder, Tree.arrayJson,
    Json.list_spelled_eq_none item write xs.toList depth x (by simpa using hx) h]
  rfl

/-! ## Trees -/

namespace Tree

/-- The members of a tree's document that have a field. -/
def named (t : Tree) : Members := [
  ("left_children", arrayJson (fun c => .ofInt c.toInt) t.leftChildren),
  ("right_children", arrayJson (fun c => .ofInt c.toInt) t.rightChildren),
  ("split_indices", arrayJson (fun i => .ofNat i.toNat) t.splitIndices),
  ("split_conditions", arrayJson .ofSingle t.splitConditions),
  ("default_left", arrayJson (fun b => .ofNat b.toNat) t.defaultLeft)]

def Finite (t : Tree) : Prop := ∀ c ∈ t.splitConditions, c.isFinite

/-- No other member has the name of a field. -/
def Unnamed (t : Tree) : Prop := NoneOf fields t.others

/-- The other members are read back, and so is the text of every finite split condition. -/
structure Rereads (t : Tree) : Prop where
  others : t.others.ReadBack
  conditions : ∀ c ∈ t.splitConditions, c.isFinite → SingleRereads c

theorem depth_of_toJson (t : Tree) (depth : Nat) (h : t.toJson.depth ≤ depth) :
    ∃ below, depth = below + 2 ∧ Json.membersDepth t.others ≤ below + 1 := by
  have unfolded : t.toJson.depth = max (Json.membersDepth t.named) (Json.membersDepth t.others) + 1 := by
    rw [← Json.membersDepth_append, ← Json.depth.eq_2]
    rfl
  have arrays : 1 ≤ Json.membersDepth t.named := by
    simp only [named, Json.membersDepth, arrayJson, Json.depth]
    omega
  exact ⟨depth - 2, by omega, by omega⟩

theorem decoder_toJson (t : Tree) (unnamed : t.Unnamed) (rereads : t.Rereads) (depth : Nat)
    (h : t.toJson.depth ≤ depth) :
    (t.Finite → decoder depth t.toJson.spelled = some t) ∧
      (¬ t.Finite → decoder depth t.toJson.spelled = none) := by
  obtain ⟨below, rfl, within⟩ := t.depth_of_toJson depth h
  have opened : openRecord fields (below + 2) t.toJson.spelled = _ :=
    openRecord_spelled fields t.named t.others rfl (by decide) ⟨rereads.others, unnamed⟩ (below + 1) within
  have left := required_of_lookup fields (t.named ++ t.others) (below + 1) "left_children"
    (arrayDecoder childDecoder) _ rfl
  have right := required_of_lookup fields (t.named ++ t.others) (below + 1) "right_children"
    (arrayDecoder childDecoder) _ rfl
  have indices := required_of_lookup fields (t.named ++ t.others) (below + 1) "split_indices"
    (arrayDecoder wordDecoder) _ rfl
  have conditions := required_of_lookup fields (t.named ++ t.others) (below + 1) "split_conditions"
    (arrayDecoder .single) _ rfl
  have directions := required_of_lookup fields (t.named ++ t.others) (below + 1) "default_left"
    (arrayDecoder directionDecoder) _ rfl
  rw [arrayDecoder_spelled _ _ _ _ fun c _ => childDecoder_spelled below c] at left right
  rw [arrayDecoder_spelled _ _ _ _ fun i _ => wordDecoder_spelled below i] at indices
  rw [arrayDecoder_spelled _ _ _ _ fun b _ => directionDecoder_spelled below b] at directions
  rw [decoder, Decoder.andThen, opened]
  refine ⟨fun finite => ?_, fun infinite => ?_⟩
  · rw [arrayDecoder_spelled _ _ _ _ fun c hc =>
      single_spelled below c (finite c hc) (rereads.conditions c hc (finite c hc))] at conditions
    simp only [Option.bind_some, left, right, indices, conditions, directions]
    rfl
  · obtain ⟨c, hc, infinite⟩ : ∃ c ∈ t.splitConditions, ¬ c.isFinite := by simpa [Finite] using infinite
    rw [arrayDecoder_spelled_eq_none _ _ _ _ c hc (single_spelled_eq_none below c infinite)] at conditions
    simp only [Option.bind_some, left, right, indices, conditions]
    rfl

theorem unnamed_of_decoder (t : Tree) (depth : Nat) (d : Json.Document) (h : decoder depth d = some t) :
    t.Unnamed := by
  unfold decoder Decoder.andThen at h
  obtain ⟨⟨r, others⟩, opened, h⟩ := Option.bind_eq_some_iff.mp h
  simp only [Option.bind_eq_bind, Option.bind_eq_some_iff] at h
  obtain ⟨_, -, _, -, _, -, _, -, _, -, eq⟩ := h
  obtain rfl := Option.some.inj eq
  exact Json.noneOf_of_openRecord _ _ _ _ _ opened

end Tree

/-! ## Boosters -/

namespace Booster

variable (b : Booster)

/-- The members of each section that have a field. -/
def namedParameters : Members := [("base_score", .string b.baseScore), ("num_feature", .string b.featureCount)]

@[inherit_doc namedParameters]
def namedObjective : Members := [("name", .string b.objective)]

@[inherit_doc namedParameters]
def namedModel : Members := [
  ("trees", .array (b.trees.map Tree.toJson)),
  ("tree_info", .array (b.treeInfo.map fun c => .ofInt c.toInt))]

@[inherit_doc namedParameters]
def namedEnsemble : Members := [
  ("name", .string b.kind), ("model", .object (b.namedModel ++ b.others.model))]

@[inherit_doc namedParameters]
def namedLearner : Members := [
  ("learner_model_param", .object (b.namedParameters ++ b.others.parameters)),
  ("objective", .object (b.namedObjective ++ b.others.objective)),
  ("gradient_booster", .object (b.namedEnsemble ++ b.others.ensemble))]

@[inherit_doc namedParameters]
def named : Members := [
  ("learner", .object (b.namedLearner ++ b.others.learner)),
  ("version", .array (b.version.map fun w => .ofNat w.toNat))]

/-- All split conditions of all trees are finite. -/
def Finite : Prop := ∀ t ∈ b.trees, t.Finite

/-- In no section another member has the name of a field. -/
structure Unnamed : Prop where
  learner : NoneOf learnerFields b.others.learner
  parameters : NoneOf parameterFields b.others.parameters
  objective : NoneOf objectiveFields b.others.objective
  ensemble : NoneOf ensembleFields b.others.ensemble
  model : NoneOf modelFields b.others.model
  trees : ∀ t ∈ b.trees, t.Unnamed

/-- In every section the other members are read back, and so is the text of every finite split
condition. -/
structure Rereads : Prop where
  learner : b.others.learner.ReadBack
  parameters : b.others.parameters.ReadBack
  objective : b.others.objective.ReadBack
  ensemble : b.others.ensemble.ReadBack
  model : b.others.model.ReadBack
  trees : ∀ t ∈ b.trees, t.Rereads

/-- How deep the sections may nest in a document that may be read. -/
structure Shallow : Prop where
  learner : Json.membersDepth b.others.learner ≤ 125
  parameters : Json.membersDepth b.others.parameters ≤ 124
  objective : Json.membersDepth b.others.objective ≤ 124
  ensemble : Json.membersDepth b.others.ensemble ≤ 124
  model : Json.membersDepth b.others.model ≤ 123
  trees : ∀ t ∈ b.trees, t.toJson.depth ≤ 122

theorem toJson_eq : b.toJson = .object b.named := rfl

theorem shallow_of_depth (h : b.toJson.depth ≤ Json.Document.maxDepth) : b.Shallow := by
  have trees : ∀ t ∈ b.trees, t.toJson.depth ≤ Json.itemsDepth (b.trees.map Tree.toJson) :=
    fun t ht => Json.depth_le_itemsDepth _ _ (List.mem_map_of_mem ht)
  rw [toJson_eq, Json.Document.maxDepth] at h
  simp only [named, namedLearner, namedParameters, namedObjective, namedEnsemble, namedModel, Json.depth,
    Json.membersDepth, Json.membersDepth_append, Nat.max_le, Nat.reduceLeDiff] at h
  constructor
  case trees =>
    intro t ht
    have := trees t ht
    omega
  all_goals omega

theorem trees_spelled (unnamed : b.Unnamed) (rereads : b.Rereads) (shallow : b.Shallow) :
    (b.Finite → Decoder.list Tree.decoder 123 (Json.array (b.trees.map Tree.toJson)).spelled = some b.trees) ∧
      (¬ b.Finite → Decoder.list Tree.decoder 123 (Json.array (b.trees.map Tree.toJson)).spelled = none) := by
  have each := fun (t : Tree) ht =>
    t.decoder_toJson (unnamed.trees t ht) (rereads.trees t ht) 122 (shallow.trees t ht)
  refine ⟨fun finite => ?_, fun infinite => ?_⟩
  · exact Json.list_spelled _ _ _ _ fun t ht => (each t ht).1 (finite t ht)
  · obtain ⟨t, ht, infinite⟩ : ∃ t ∈ b.trees, ¬ t.Finite := by simpa [Finite] using infinite
    exact Json.list_spelled_eq_none _ _ _ _ t ht ((each t ht).2 infinite)

theorem looseDecoder_toJson (unnamed : b.Unnamed) (rereads : b.Rereads) (shallow : b.Shallow) :
    (b.Finite → looseDecoder 127 b.toJson.spelled = some b) ∧
      (¬ b.Finite → looseDecoder 127 b.toJson.spelled = none) := by
  -- The sections, from the outside in.
  have top := Json.record_spelled fields b.named rfl (by decide) 126
  have learner := section_of_lookup fields b.named "learner" learnerFields b.namedLearner b.others.learner rfl
    (by decide) ⟨rereads.learner, unnamed.learner⟩ 125 shallow.learner rfl
  have parameters := section_of_lookup learnerFields (b.namedLearner ++ b.others.learner) "learner_model_param"
    parameterFields b.namedParameters b.others.parameters rfl (by decide)
    ⟨rereads.parameters, unnamed.parameters⟩ 124 shallow.parameters rfl
  have objective := section_of_lookup learnerFields (b.namedLearner ++ b.others.learner) "objective"
    objectiveFields b.namedObjective b.others.objective rfl (by decide)
    ⟨rereads.objective, unnamed.objective⟩ 124 shallow.objective rfl
  have ensemble := section_of_lookup learnerFields (b.namedLearner ++ b.others.learner) "gradient_booster"
    ensembleFields b.namedEnsemble b.others.ensemble rfl (by decide)
    ⟨rereads.ensemble, unnamed.ensemble⟩ 124 shallow.ensemble rfl
  have model := section_of_lookup ensembleFields (b.namedEnsemble ++ b.others.ensemble) "model"
    modelFields b.namedModel b.others.model rfl (by decide) ⟨rereads.model, unnamed.model⟩ 123 shallow.model rfl
  -- Their fields.
  have baseScore := required_of_lookup parameterFields (b.namedParameters ++ b.others.parameters) 124
    "base_score" .text _ rfl
  have featureCount := required_of_lookup parameterFields (b.namedParameters ++ b.others.parameters) 124
    "num_feature" .text _ rfl
  have objectiveName := required_of_lookup objectiveFields (b.namedObjective ++ b.others.objective) 124
    "name" .text _ rfl
  have kind := required_of_lookup ensembleFields (b.namedEnsemble ++ b.others.ensemble) 124 "name" .text _ rfl
  have trees := required_of_lookup modelFields (b.namedModel ++ b.others.model) 123 "trees"
    (.list Tree.decoder) _ rfl
  have treeInfo := (Json.withDefault_of_lookup modelFields (b.namedModel ++ b.others.model) 123 "tree_info" []
    (.list Tree.childDecoder) _ rfl).trans (Json.list_spelled _ _ _ _ fun c _ => childDecoder_spelled 122 c)
  have version := (required_of_lookup fields b.named 126 "version" (.list Tree.wordDecoder) _ rfl).trans
    (Json.list_spelled _ _ _ _ fun w _ => wordDecoder_spelled 125 w)
  obtain ⟨read, unread⟩ := b.trees_spelled unnamed rereads shallow
  rw [toJson_eq, looseDecoder, Decoder.andThen, top]
  refine ⟨fun finite => ?_, fun infinite => ?_⟩
  · rw [read finite] at trees
    simp only [Option.bind_eq_bind, Option.bind_some, learner, parameters, objective, ensemble, model, baseScore,
      featureCount, objectiveName, kind, trees, treeInfo, version]
    rfl
  · rw [unread infinite] at trees
    simp only [Option.bind_eq_bind, Option.bind_some, learner, parameters, objective, ensemble, model, baseScore,
      featureCount, objectiveName, kind, trees]
    rfl

theorem unnamed_of_looseDecoder (depth : Nat) (d : Json.Document) (h : looseDecoder depth d = some b) :
    b.Unnamed := by
  obtain ⟨top, -, h⟩ := Option.bind_eq_some_iff.mp h
  obtain ⟨learner, hl, h⟩ := Option.bind_eq_some_iff.mp h
  obtain ⟨parameters, hp, h⟩ := Option.bind_eq_some_iff.mp h
  obtain ⟨objective, ho, h⟩ := Option.bind_eq_some_iff.mp h
  obtain ⟨ensemble, he, h⟩ := Option.bind_eq_some_iff.mp h
  obtain ⟨model, hm, h⟩ := Option.bind_eq_some_iff.mp h
  iterate 4 obtain ⟨_, -, h⟩ := Option.bind_eq_some_iff.mp h
  obtain ⟨trees, ht, h⟩ := Option.bind_eq_some_iff.mp h
  iterate 2 obtain ⟨_, -, h⟩ := Option.bind_eq_some_iff.mp h
  obtain rfl := Option.some.inj h
  refine ⟨noneOf_of_required _ _ _ _ hl, noneOf_of_required _ _ _ _ hp, noneOf_of_required _ _ _ _ ho,
    noneOf_of_required _ _ _ _ he, noneOf_of_required _ _ _ _ hm, ?_⟩
  intro t mem
  obtain ⟨document, -, read⟩ := Option.bind_eq_some_iff.mp ht
  obtain ⟨below, e, read⟩ := mem_of_list _ _ _ _ read t mem
  exact t.unnamed_of_decoder below e read

/-- The boosters that can be made: those that are read and those without trees, and any of them with
trees added that are read or made alone. -/
inductive Made : Booster → Prop where
  | read (text : List UInt8) (b : Booster) (h : ofBytes text = .ok b) : Made b
  | new (objective : String) (baseScore : Float32) (features : Nat) : Made (.new objective baseScore features)
  | pushRead (b : Booster) (made : Made b) (t : Tree) (depth : Nat) (d : Json.Document)
      (h : Tree.decoder depth d = some t) : Made (b.push t)
  | pushLeaf (b : Booster) (made : Made b) (value : Float32) : Made (b.push (.leaf value))
  | pushStump (b : Booster) (made : Made b) (feature : UInt32) (threshold left right : Float32)
      (missingLeft : Bool) : Made (b.push (.stump feature threshold left right missingLeft))

variable {b}

theorem Unnamed.push (unnamed : b.Unnamed) (t : Tree) (ht : t.Unnamed) : (b.push t).Unnamed where
  learner := unnamed.learner
  parameters := unnamed.parameters
  objective := unnamed.objective
  ensemble := unnamed.ensemble
  model := unnamed.model
  trees := by
    intro u hu
    obtain hu | hu := List.mem_append.mp hu
    · exact unnamed.trees u hu
    · rw [List.mem_singleton.mp hu]
      exact ht

theorem Made.unnamed (made : b.Made) : b.Unnamed := by
  induction made with
  | read text b h =>
    unfold ofBytes at h
    cases hd : looseDecoder.ofBytes? text with
    | none => simp [hd] at h
    | some b' =>
      obtain ⟨d, -, read⟩ := Option.bind_eq_some_iff.mp hd
      have unnamed := unnamed_of_looseDecoder b' _ d read
      simp only [hd] at h
      cases hv : b'.validate with
      | error e => simp [hv, Except.map] at h
      | ok u =>
        simp only [hv, Except.map, Except.ok.injEq] at h
        rwa [← h]
  | new => constructor <;> simp [Booster.new, NoneOf]
  | pushRead b _ t depth d h ih => exact ih.push t (t.unnamed_of_decoder depth d h)
  | pushLeaf b _ value ih => exact ih.push _ (by simp [Tree.leaf, Tree.Unnamed, NoneOf])
  | pushStump b _ _ _ _ _ _ ih => exact ih.push _ (by simp [Tree.stump, Tree.Unnamed, NoneOf])

variable (b) in
/-- **What is written is read back exactly if it is sound and finite**, and nothing else is read. That no
other member has the name of a field is so for every booster that can be made. -/
theorem ofBytes_toBytes (rereads : b.Rereads) (depth : b.toJson.depth ≤ Json.Document.maxDepth) :
    (b.Made → b.Unnamed) ∧
      (b.Unnamed →
        (ofBytes b.toBytes = .ok b ↔ b.validate = .ok () ∧ b.Finite) ∧
          (ofBytes b.toBytes ≠ .ok b → ∃ e, ofBytes b.toBytes = .error e)) := by
  refine ⟨Made.unnamed, fun unnamed => ?_⟩
  obtain ⟨read, unread⟩ := b.looseDecoder_toJson unnamed rereads (b.shallow_of_depth depth)
  have document : looseDecoder.ofBytes? b.toBytes = looseDecoder 127 b.toJson.spelled := by
    rw [Decoder.ofBytes?, toBytes, (Json.ofBytes?_written b.toJson).1]
    rfl
  unfold ofBytes
  rw [document]
  by_cases finite : b.Finite
  · rw [read finite]
    cases hv : b.validate with
    | ok u => simp [hv, Except.map, finite]
    | error e => simp [hv, Except.map]
  · rw [unread finite]
    simp [finite]

/-- A booster of one stump, with a member that has no field. -/
def stumped : Booster :=
  { new "reg:squarederror" 0.5 2 with
    trees := [.stump 1 0.5 1 (-1) true]
    treeInfo := [0]
    others := ⟨[("feature_names", .array [.string "age"])], [], [], [], []⟩ }

theorem stumped_rereads : stumped.Rereads := by
  have conditions : SingleRereads 0.5 ∧ SingleRereads 1 ∧ SingleRereads (-1) :=
    ⟨⟨0.5, Json.Number.spelled_of_toNumber? _ _ (by decide +kernel), by decide +kernel⟩,
      ⟨1, Json.Number.spelled_of_toNumber? _ _ (by decide +kernel), by decide +kernel⟩,
      ⟨-1, Json.Number.spelled_of_toNumber? _ _ (by decide +kernel), by decide +kernel⟩⟩
  constructor
  case trees =>
    simp only [stumped, List.mem_singleton, forall_eq]
    constructor
    · constructor <;> simp [Tree.stump, Json.Tidy, Json.TidyMembers, Members.Sorted, Json.Numbers, Json.NumbersMembers]
    · simpa [Tree.stump] using ⟨fun _ => conditions.1, fun _ => conditions.2.1, fun _ => conditions.2.2⟩
  all_goals
    constructor <;>
      simp [stumped, Json.Tidy, Json.TidyItems, Json.TidyMembers, Members.Sorted, Json.Numbers, Json.NumbersItems,
        Json.NumbersMembers]

theorem ofBytes_toBytes_stumped : ofBytes stumped.toBytes = .ok stumped := by
  have depth : stumped.toJson.depth ≤ Json.Document.maxDepth := by decide
  obtain ⟨-, readBack⟩ := ofBytes_toBytes stumped stumped_rereads depth
  have unnamed : stumped.Unnamed := by
    constructor <;> simp [stumped, NoneOf, learnerFields, Tree.Unnamed, Tree.stump]
  refine (readBack unnamed).1.mpr ⟨by decide, ?_⟩
  simp only [Finite, stumped, List.mem_singleton, forall_eq, Tree.Finite, Tree.stump]
  decide +kernel

end Booster

end Boosting

end ModelDepot
