import Mathlib.Data.Option.Basic
import ModelDepot.Proofs.Boosting.Documents
import ModelDepot.Proofs.Json.Copies

/-! # Members without a field

A booster's document may say more than a booster has fields for. What a section of the document has beside its
fields is kept and written again, the last of equal keys. Only the document as a whole is no such section: what
it has beside its fields is lost.
-/

namespace ModelDepot

open Json (Decoder Document Members NoneOf Record openRecord record)

namespace Json

/-! ## Parts of documents -/

/-- A step into a document: to a field of a record, which may be an array, or to an item. -/
inductive Step where
  | field (fields : List String) (name : String)
  | item (index : Nat)

namespace Document

def step? : Step → Document → Option Document
  | .field _ name, .object ms => ms.lookup name
  | .field fields name, .array items => items[fields.idxOf name]?
  | .item index, .array items => items[index]?
  | _, _ => none

def part? (d : Document) : List Step → Option Document
  | [] => some d
  | s :: rest => (d.step? s).bind (·.part? rest)

def members? : Document → Option (List (String × Document))
  | .object ms => some ms
  | _ => none

end Document

variable {α : Type} {fields : List String} {depth : Nat} {d : Document} {r : Record} {others : Members}

theorem step?_of_required (opened : record fields depth d = some r) {field : String} {item : Decoder α} {x : α}
    (h : r.required field item = some x) :
    r.depth + 1 = depth ∧ ∃ e, d.step? (.field fields field) = some e ∧ item r.depth e = some x := by
  obtain ⟨e, part, read⟩ := Option.bind_eq_some_iff.mp h
  unfold record at opened
  split at opened
  · split at opened
    · obtain rfl := Option.some.inj opened
      exact ⟨rfl, e, part, read⟩
    · simp at opened
  · split at opened
    · obtain rfl := Option.some.inj opened
      exact ⟨rfl, e, part, read⟩
    · simp at opened
  · simp at opened

theorem openRecord_eq_some (opened : openRecord fields depth d = some (r, others)) :
    ∃ below ms vs, depth = below + 1 ∧ d = .object ms ∧ r = ⟨fields, .named ms, below⟩ ∧ others = Members.ofList vs ∧
      Document.membersToJson? below (ms.filter fun m => ! fields.contains m.1) = some vs := by
  unfold openRecord at opened
  split at opened
  · next below ms =>
    split at opened
    · obtain ⟨vs, read, eq⟩ := Option.map_eq_some_iff.mp opened
      obtain ⟨rfl, rfl⟩ := Prod.mk.inj eq
      exact ⟨below, ms, vs, rfl, rfl, rfl, rfl, read⟩
    · simp at opened
  · simp at opened

theorem step?_of_openRequired (opened : openRecord fields depth d = some (r, others)) {field : String}
    {item : Decoder α} {x : α} (h : r.required field item = some x) :
    r.depth + 1 = depth ∧ ∃ e, d.step? (.field fields field) = some e ∧ item r.depth e = some x := by
  obtain ⟨below, ms, vs, rfl, rfl, rfl, -, -⟩ := openRecord_eq_some opened
  obtain ⟨e, part, read⟩ := Option.bind_eq_some_iff.mp h
  exact ⟨rfl, e, part, read⟩

theorem step?_of_list {item : Decoder α} {xs : List α} (h : Decoder.list item depth d = some xs) (index : Nat) :
    ∃ below, depth = below + 1 ∧
      Option.Rel (fun e x => item below e = some x) (d.step? (.item index)) xs[index]? := by
  unfold Decoder.list at h
  split at h
  · next below items =>
    refine ⟨below, rfl, ?_⟩
    simp only [Document.step?]
    induction items generalizing xs index with
    | nil =>
      obtain rfl : [] = xs := Option.some.inj h
      exact .none
    | cons e items ih =>
      rw [List.mapM_cons] at h
      obtain ⟨y, hy, h⟩ := Option.bind_eq_some_iff.mp h
      obtain ⟨ys, hys, h⟩ := Option.bind_eq_some_iff.mp h
      obtain rfl : y :: ys = xs := Option.some.inj h
      cases index with
      | zero => exact .some hy
      | succ index => exact ih index hys
  · simp at h

/-! ## Members that are written again -/

/-- The second document is what the value of the first is written as. It has that value itself if the text of
every number is read as the number. -/
def Rewritten (d d' : Document) : Prop :=
  ∃ v, d.toJson? Document.maxDepth = some v ∧ d' = v.spelled ∧
    (v.Numbers Number.Rereads → d'.toJson? Document.maxDepth = some v)

/-- Of what an object has beside some fields, the last of equal keys is written again, and nothing else is. -/
structure Carried (fields : List String) (read written : List (String × Document)) : Prop where
  once : (written.map Prod.fst).Nodup
  others : ∀ key ∉ fields, Option.Rel Rewritten (read.reverse.lookup key) (written.lookup key)

theorem lookup_filter_of_not_mem {key : String} (unnamed : key ∉ fields) (ms : List (String × Document)) :
    (ms.filter fun m => ! fields.contains m.1).lookup key = ms.lookup key := by
  induction ms with
  | nil => rfl
  | cons m rest ih =>
    obtain ⟨k, d⟩ := m
    rw [List.filter_cons, List.lookup_cons]
    by_cases same : key = k
    · subst same
      simp [unnamed]
    · rw [beq_eq_false_iff_ne.mpr same]
      split
      · rw [List.lookup_cons, beq_eq_false_iff_ne.mpr same]
        exact ih
      · exact ih

theorem membersToJson?_append {ms more : List (String × Document)} {vs : Members}
    (h : Document.membersToJson? depth (ms ++ more) = some vs) :
    ∃ us ws, Document.membersToJson? depth ms = some us ∧ Document.membersToJson? depth more = some ws ∧ vs = us ++ ws := by
  induction ms generalizing vs with
  | nil => exact ⟨[], vs, rfl, h, rfl⟩
  | cons m rest ih =>
    obtain ⟨k, d⟩ := m
    rw [List.cons_append, Document.membersToJson?] at h
    split at h
    · next v vs' hv hvs =>
      obtain ⟨us, ws, read, read', rfl⟩ := ih hvs
      refine ⟨(k, v) :: us, ws, ?_, read', (Option.some.inj h).symm⟩
      rw [Document.membersToJson?, hv, read]
    · simp at h

theorem last_of_membersToJson? {ms : List (String × Document)} {vs : Members}
    (h : Document.membersToJson? depth ms = some vs) (key : String) :
    Option.Rel (fun d v => Document.toJson? depth d = some v) (ms.reverse.lookup key) (vs.reverse.lookup key) := by
  induction ms using List.reverseRecOn generalizing vs with
  | nil =>
    obtain rfl := Option.some.inj h
    exact .none
  | append_singleton rest m ih =>
    obtain ⟨k, d⟩ := m
    obtain ⟨us, ws, read, last, rfl⟩ := membersToJson?_append h
    rw [Document.membersToJson?] at last
    split at last
    · next v _ hv hnil =>
      obtain rfl := Option.some.inj hnil
      obtain rfl := Option.some.inj last
      rw [List.reverse_append, List.reverse_append, List.reverse_singleton, List.reverse_singleton,
        List.singleton_append, List.singleton_append, List.lookup_cons, List.lookup_cons]
      cases key == k with
      | true => exact .some hv
      | false => exact ih read
    · simp at last

theorem rewritten_of_toJson? {v : Json} (within : depth ≤ Document.maxDepth) (h : Document.toJson? depth d = some v) :
    Rewritten d v.spelled := by
  refine ⟨v, Document.toJson?_mono within d v h, rfl, fun numbers => ?_⟩
  apply toJson?_spelled v (tidy_of_toJson? depth d v h) numbers
  exact Nat.le_trans (Document.depth_of_toJson?_le depth d v h) within

/-- **The members beside the fields of a record are carried over** when its fields are written before them. -/
theorem carried_of_openRecord (opened : openRecord fields depth d = some (r, others))
    (within : depth ≤ Document.maxDepth) (named : Members) (names : named.map Prod.fst = fields)
    (distinct : fields.Nodup) :
    Option.Rel (Carried fields) d.members? (some (spelledMembers (named ++ others))) := by
  have unnamed : NoneOf fields others := noneOf_of_openRecord fields depth d r others opened
  obtain ⟨below, ms, vs, rfl, rfl, rfl, rfl, read⟩ := openRecord_eq_some opened
  have sorted := Members.sorted_ofList vs
  refine .some ⟨?_, fun key beside => ?_⟩
  · rw [keys_spelledMembers, List.map_append, names, List.nodup_append]
    refine ⟨distinct, ?_, ?_⟩
    · exact (List.pairwise_map.mpr sorted).imp fun less => String.ne_of_lt less
    · rintro field hf _ hk rfl
      obtain ⟨m, hm, rfl⟩ := List.mem_map.mp hk
      exact unnamed m hm hf
  · have nowhere : named.lookup key = none := Members.lookup_eq_none_iff.mpr (names ▸ beside)
    have last := last_of_membersToJson? read key
    rw [← List.filter_reverse, lookup_filter_of_not_mem beside] at last
    rw [lookup_spelledMembers, List.lookup_append, nowhere, Option.none_or, Members.lookup_ofList]
    generalize ms.reverse.lookup key = before, vs.reverse.lookup key = after at last
    cases last with
    | none => exact .none
    | some h => exact .some (rewritten_of_toJson? (Nat.le_of_succ_le within) h)

theorem carried_iff_of_keys {read written : List (String × Document)} (keys : written.map Prod.fst = fields)
    (distinct : fields.Nodup) : Carried fields read written ↔ ∀ m ∈ read, m.1 ∈ fields := by
  have unwritten : ∀ key ∉ fields, written.lookup key = none := fun key beside =>
    Members.lookup_eq_none_iff.mpr (keys ▸ beside)
  constructor
  · intro carried m mem
    by_contra beside
    have lost := carried.others m.1 beside
    rw [unwritten m.1 beside] at lost
    cases last : read.reverse.lookup m.1 with
    | some d =>
      rw [last] at lost
      cases lost
    | none =>
      refine Members.lookup_eq_none_iff.mp last (List.mem_map_of_mem ?_)
      exact List.mem_reverse.mpr mem
  · intro named
    refine ⟨keys ▸ distinct, fun key beside => ?_⟩
    have unread : read.reverse.lookup key = none := by
      refine Members.lookup_eq_none_iff.mpr fun last => beside ?_
      obtain ⟨m, mem, rfl⟩ := List.mem_map.mp last
      exact named m (List.mem_reverse.mp mem)
    rw [unread, unwritten key beside]
    exact .none

end Json

namespace Boosting

open Json (Step)

/-! ## Sections of a booster's document -/

/-- The objects of which a booster's document is made up: itself, those in it, and a tree for each place. -/
inductive Section where
  | document
  | learner
  | parameters
  | objective
  | ensemble
  | model
  | tree (index : Nat)
  deriving DecidableEq

namespace Section

def fields : Section → List String
  | document => Booster.fields
  | learner => Booster.learnerFields
  | parameters => Booster.parameterFields
  | objective => Booster.objectiveFields
  | ensemble => Booster.ensembleFields
  | model => Booster.modelFields
  | tree _ => Tree.fields

def path : Section → List Step
  | document => []
  | learner => [.field Booster.fields "learner"]
  | parameters => [.field Booster.fields "learner", .field Booster.learnerFields "learner_model_param"]
  | objective => [.field Booster.fields "learner", .field Booster.learnerFields "objective"]
  | ensemble => [.field Booster.fields "learner", .field Booster.learnerFields "gradient_booster"]
  | model => [.field Booster.fields "learner", .field Booster.learnerFields "gradient_booster",
      .field Booster.ensembleFields "model"]
  | tree index => [.field Booster.fields "learner", .field Booster.learnerFields "gradient_booster",
      .field Booster.ensembleFields "model", .field Booster.modelFields "trees", .item index]

/-- The members of a section in a document, if the document has it. -/
def members? (s : Section) (d : Document) : Option (List (String × Document)) :=
  (d.part? s.path).bind (·.members?)

end Section

namespace Booster

variable (b : Booster)

/-- The members that a section is written with. -/
def membersOf? : Section → Option Members
  | .document => some b.named
  | .learner => some (b.namedLearner ++ b.others.learner)
  | .parameters => some (b.namedParameters ++ b.others.parameters)
  | .objective => some (b.namedObjective ++ b.others.objective)
  | .ensemble => some (b.namedEnsemble ++ b.others.ensemble)
  | .model => some (b.namedModel ++ b.others.model)
  | .tree index => b.trees[index]?.map fun t => t.named ++ t.others

theorem getElem?_spelledItems (items : List Json) (index : Nat) :
    (Json.spelledItems items)[index]? = items[index]?.map Json.spelled := by
  induction items generalizing index with
  | nil => rfl
  | cons v rest ih =>
    cases index with
    | zero => rfl
    | succ index => exact ih index

theorem members?_spelled (s : Section) :
    s.members? b.toJson.spelled = (b.membersOf? s).map Json.spelledMembers := by
  cases s with
  | tree index =>
    have trees : b.toJson.spelled.part? (Section.tree index).path =
        (Json.spelledItems (b.trees.map Tree.toJson))[index]?.bind (·.part? []) := rfl
    rw [Section.members?, trees, getElem?_spelledItems, List.getElem?_map, membersOf?]
    cases b.trees[index]? <;> rfl
  | _ => rfl

variable {b}

theorem carried_of_decoder {t : Tree} {e : Document} {depth : Nat} (h : Tree.decoder depth e = some t)
    (within : depth ≤ Document.maxDepth) :
    Option.Rel (Json.Carried Tree.fields) e.members? (some (Json.spelledMembers (t.named ++ t.others))) := by
  obtain ⟨⟨r, others⟩, opened, h⟩ := Option.bind_eq_some_iff.mp h
  iterate 5 obtain ⟨_, -, h⟩ := Option.bind_eq_some_iff.mp h
  obtain rfl := Option.some.inj h
  exact Json.carried_of_openRecord opened within _ rfl (by decide)

theorem carried_of_looseDecoder {d : Document} (h : looseDecoder Document.maxDepth d = some b) (s : Section)
    (inner : s ≠ .document) :
    Option.Rel (Json.Carried s.fields) (s.members? d) ((b.membersOf? s).map Json.spelledMembers) := by
  obtain ⟨top, opened, h⟩ := Option.bind_eq_some_iff.mp h
  obtain ⟨⟨learner, learnerOthers⟩, hl, h⟩ := Option.bind_eq_some_iff.mp h
  obtain ⟨⟨parameters, parameterOthers⟩, hp, h⟩ := Option.bind_eq_some_iff.mp h
  obtain ⟨⟨objective, objectiveOthers⟩, ho, h⟩ := Option.bind_eq_some_iff.mp h
  obtain ⟨⟨ensemble, ensembleOthers⟩, he, h⟩ := Option.bind_eq_some_iff.mp h
  obtain ⟨⟨model, modelOthers⟩, hm, h⟩ := Option.bind_eq_some_iff.mp h
  iterate 4 obtain ⟨_, -, h⟩ := Option.bind_eq_some_iff.mp h
  obtain ⟨trees, ht, h⟩ := Option.bind_eq_some_iff.mp h
  iterate 2 obtain ⟨_, -, h⟩ := Option.bind_eq_some_iff.mp h
  obtain rfl := Option.some.inj h
  -- The sections from the outside in, each found where its step leads from the one around it.
  obtain ⟨topDepth, dl, atLearner, openedLearner⟩ := Json.step?_of_required opened hl
  obtain ⟨learnerDepth, dp, atParameters, openedParameters⟩ := Json.step?_of_openRequired openedLearner hp
  obtain ⟨-, dobj, atObjective, openedObjective⟩ := Json.step?_of_openRequired openedLearner ho
  obtain ⟨-, de, atEnsemble, openedEnsemble⟩ := Json.step?_of_openRequired openedLearner he
  obtain ⟨ensembleDepth, dm, atModel, openedModel⟩ := Json.step?_of_openRequired openedEnsemble hm
  obtain ⟨modelDepth, dt, atTrees, listed⟩ := Json.step?_of_openRequired openedModel ht
  cases s with
  | document => exact absurd rfl inner
  | learner =>
    simp only [Section.members?, Section.path, Document.part?, atLearner, Option.bind_some]
    exact Json.carried_of_openRecord openedLearner (by omega) _ rfl (by decide)
  | parameters =>
    simp only [Section.members?, Section.path, Document.part?, atLearner, atParameters, Option.bind_some]
    exact Json.carried_of_openRecord openedParameters (by omega) _ rfl (by decide)
  | objective =>
    simp only [Section.members?, Section.path, Document.part?, atLearner, atObjective, Option.bind_some]
    exact Json.carried_of_openRecord openedObjective (by omega) _ rfl (by decide)
  | ensemble =>
    simp only [Section.members?, Section.path, Document.part?, atLearner, atEnsemble, Option.bind_some]
    exact Json.carried_of_openRecord openedEnsemble (by omega) _ rfl (by decide)
  | model =>
    simp only [Section.members?, Section.path, Document.part?, atLearner, atEnsemble, atModel, Option.bind_some]
    exact Json.carried_of_openRecord openedModel (by omega) _ rfl (by decide)
  | tree index =>
    simp only [Section.members?, Section.path, Document.part?, atLearner, atEnsemble, atModel, atTrees,
      Option.bind_some, membersOf?, Option.map_map]
    obtain ⟨below, treeDepth, place⟩ := Json.step?_of_list listed index
    generalize dt.step? (.item index) = there, trees[index]? = read at place
    cases place with
    | none => exact .none
    | some read => exact carried_of_decoder read (by omega)

/-- **Every section but the document as a whole survives being read and written**, all trees in their places. Of the
document as a whole only the fields are written. -/
theorem ofBytes_carries {text : List UInt8} (h : ofBytes text = .ok b) :
    ∃ read written, Document.ofBytes? text = some read ∧ Document.ofBytes? b.toBytes = some written ∧
      (∀ s ≠ Section.document, Option.Rel (Json.Carried s.fields) (s.members? read) (s.members? written)) ∧
      (∃ ms, written = .object ms ∧ ms.map Prod.fst = fields) ∧
      (Option.Rel (Json.Carried fields) read.members? written.members? ↔
        ∃ ms, read = .object ms ∧ ∀ m ∈ ms, m.1 ∈ fields) := by
  unfold ofBytes at h
  cases loose : looseDecoder.ofBytes? text with
  | none => simp [loose] at h
  | some b' =>
    obtain rfl : b' = b := by
      simp only [loose, Except.map] at h
      split at h
      · simp at h
      · exact Except.ok.inj h
    obtain ⟨read, spells, decoded⟩ := Option.bind_eq_some_iff.mp loose
    refine ⟨read, b'.toJson.spelled, spells, (Json.ofBytes?_written b'.toJson).1, ?_, ?_, ?_⟩
    · intro s inner
      rw [members?_spelled]
      exact carried_of_looseDecoder decoded s inner
    · exact ⟨_, rfl, Json.keys_spelledMembers b'.named⟩
    · have keys : (Json.spelledMembers b'.named).map Prod.fst = fields := Json.keys_spelledMembers b'.named
      rw [show b'.toJson.spelled.members? = some (Json.spelledMembers b'.named) from rfl]
      cases read with
      | object ms => simpa [Document.members?] using Json.carried_iff_of_keys keys (by decide)
      | _ => simp [Document.members?]

/-- The learner says something twice, the only tree says something more, and so does the document. -/
def annotated : Json := .object [
  ("learner", .object [
    ("note", .ofNat 1),
    ("learner_model_param", .object [("base_score", .string "0.5"), ("num_feature", .string "1")]),
    ("objective", .object [("name", .string "reg:squarederror")]),
    ("gradient_booster", .object [
      ("name", .string "gbtree"),
      ("model", .object [("trees", .array [.object [
        ("left_children", .array [.ofInt (-1)]),
        ("right_children", .array [.ofInt (-1)]),
        ("split_indices", .array [.ofInt 0]),
        ("split_conditions", .array [.ofInt 3]),
        ("default_left", .array [.ofInt 0]),
        ("id", .ofNat 7)]])])]),
    ("note", .ofNat 2)]),
  ("version", .array [.ofNat 2]),
  ("extra", .bool true)]

theorem ofBytes_annotated : ∃ b, ofBytes annotated.toBytes = .ok b := by
  have read : looseDecoder.ofBytes? annotated.toBytes = looseDecoder 127 annotated.spelled := by
    rw [Json.Decoder.ofBytes?, (Json.ofBytes?_written annotated).1]
    rfl
  have sound : (looseDecoder 127 annotated.spelled).map (·.fault?) = some none := by decide +kernel
  obtain ⟨b, decoded, noFault⟩ := Option.map_eq_some_iff.mp sound
  refine ⟨b, ?_⟩
  rw [ofBytes, read, decoded]
  simp [validate, noFault, Except.map]

theorem ofBytes_carries_annotated :
    ∃ b read written, ofBytes annotated.toBytes = .ok b ∧ Document.ofBytes? annotated.toBytes = some read ∧
      Document.ofBytes? b.toBytes = some written ∧
      ∀ s ≠ Section.document, Option.Rel (Json.Carried s.fields) (s.members? read) (s.members? written) := by
  obtain ⟨b, h⟩ := ofBytes_annotated
  obtain ⟨read, written, reads, writes, carried, -⟩ := ofBytes_carries h
  exact ⟨b, read, written, h, reads, writes, carried⟩

theorem annotated_loses_member :
    ∃ b read written, ofBytes annotated.toBytes = .ok b ∧ Document.ofBytes? annotated.toBytes = some read ∧
      Document.ofBytes? b.toBytes = some written ∧
      (Section.document.members? read).map (·.map Prod.fst) = some ["learner", "version", "extra"] ∧
      (Section.document.members? written).map (·.map Prod.fst) = some ["learner", "version"] := by
  obtain ⟨b, h⟩ := ofBytes_annotated
  exact ⟨b, annotated.spelled, b.toJson.spelled, h, (Json.ofBytes?_written _).1, (Json.ofBytes?_written _).1, rfl, rfl⟩

end Booster

end Boosting

end ModelDepot
