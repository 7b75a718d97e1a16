import ModelDepot.Artifact.Registry
import ModelDepot.Proofs.Deployment.Distinct
import ModelDepot.Proofs.Json.Records
import ModelDepot.Proofs.Time.Reading

/-! # Handles are read back

The payload that a handle is kept as is read as that handle, whatever is in it, if its configuration was parsed or
built: then no custom image is null, which would be read as none. It nests two levels deeper than the custom image.
-/

namespace ModelDepot

open Json (Decoder Document Record record)

/-! ## Identities -/

namespace Uuid

theorem digit?_digitChar (d : Fin 16) : digit? (digitChar d) = some d := by
  revert d
  decide

theorem ungrouped?_chars (u : Uuid) : ungrouped? u.chars = some (u.digits.map digitChar) := by
  have size : (u.digits.map digitChar).length = 32 := by rw [List.length_map, u.size]
  unfold chars
  generalize u.digits.map digitChar = cs at size
  have split (n m : Nat) : (cs.drop n).take m ++ cs.drop (n + m) = cs.drop n := by
    rw [← List.drop_drop, List.take_append_drop]
  have joined : cs.take 8 ++ ((cs.drop 8).take 4 ++ ((cs.drop 12).take 4 ++ ((cs.drop 16).take 4 ++ cs.drop 20))) = cs := by
    rw [split 16 4, split 12 4, split 8 4, List.take_append_drop]
  simpa [ungrouped?, hyphens, List.getElem?_append, List.take_append, List.drop_append, List.drop_take, size]
    using joined

theorem mapM_digit? (ds : List (Fin 16)) : (ds.map digitChar).mapM digit? = some ds := by
  induction ds with
  | nil => rfl
  | cons d ds ih =>
    rw [List.map_cons, List.mapM_cons, digit?_digitChar, ih]
    rfl

/-- **The text of an identity is read as that identity.** -/
theorem ofText?_text (u : Uuid) : ofText? u.text = some u := by
  have length := Deployment.Uuid.length_chars u
  have bare : bare u.chars = u.chars := by simp [bare, length]
  simp only [ofText?, text, String.toList_ofList, length]
  rw [if_neg (by decide), bare, ungrouped?_chars, Option.bind_some, ofDigits?, mapM_digit?]
  simp [u.size]

theorem toList_short (u : Uuid) : u.short.toList = (u.digits.map digitChar).take 8 := by
  simp [short, shortLength, chars, u.size]

end Uuid

namespace Deployment

theorem Deployer.requireSegments_versionOf (model : Uuid) :
    Artifact.requireSegments artifactName (versionOf model) = .ok () := by
  have plain : ∀ d : Fin 16, Uuid.digitChar d ≠ '/' ∧ Uuid.digitChar d ≠ '\\' := by decide
  have length := length_versionOf model
  have other (s : String) (h : s.length < 8) : versionOf model ≠ s := fun same => by
    rw [same] at length
    omega
  have chars : (versionOf model).toList.all (fun c => c ≠ '/' && c ≠ '\\') = true := by
    refine List.all_eq_true.mpr fun c hc => ?_
    rw [versionOf, Uuid.toList_short] at hc
    obtain ⟨d, -, rfl⟩ := List.mem_map.mp (List.mem_of_mem_take hc)
    simpa using plain d
  have segment : Artifact.isSegment (versionOf model) = true := by
    rw [Artifact.isSegment, chars]
    simp [other "" (by decide), other "." (by decide), other ".." (by decide)]
  have name : Artifact.isSegment artifactName = true := by decide
  simp [Artifact.requireSegments, Artifact.requireSegment, segment, name, Bind.bind, Except.bind]

/-! ## Configurations -/

namespace EndpointConfig

/-- A configuration as a caller can have it: parsed, or built, or one of these after a deployment that gave it
another name. -/
inductive Made : EndpointConfig → Prop where
  | parsed {depth : Nat} {d : Document} {c : EndpointConfig} (read : decoder depth d = some c) : Made c
  | new (endpointName repository : String) : Made (.new endpointName repository)
  | withRevision {c : EndpointConfig} (made : Made c) (revision : String) : Made { c with revision := some revision }
  | withTask {c : EndpointConfig} (made : Made c) (task : String) : Made { c with task := some task }
  | withOwner {c : EndpointConfig} (made : Made c) (owner : String) : Made { c with owner := some owner }
  | withReplicas {c : EndpointConfig} (made : Made c) (least most : UInt32) :
      Made { c with minReplica := least, maxReplica := most }
  | renamed {c : EndpointConfig} (made : Made c) (endpointName : String) : Made { c with endpointName }

/-- A custom image is a free-form value, and not null. -/
def Imaged (c : EndpointConfig) : Prop := ∀ image, c.customImage = some image → image.Tidy ∧ image ≠ .null

theorem imaged_of_nullable {depth : Nat} {d : Document} {image : Option Json}
    (read : Decoder.nullable Decoder.free depth d = some image) :
    ∀ v, image = some v → v.Tidy ∧ v ≠ .null := by
  rintro v rfl
  by_cases absent : d = .null
  · subst absent
    simp [Decoder.nullable] at read
  have value : Decoder.nullable Decoder.free depth d = (d.toJson? depth).map some := by
    cases d <;> first | exact absurd rfl absent | rfl
  rw [value] at read
  obtain ⟨w, hw, same⟩ := Option.map_eq_some_iff.mp read
  obtain rfl := Option.some.inj same
  refine ⟨Json.tidy_of_toJson? _ _ _ hw, ?_⟩
  rintro rfl
  cases d <;> cases depth <;> simp_all [Document.toJson?]

theorem imaged_of_decoder {depth : Nat} {d : Document} {c : EndpointConfig} (read : decoder depth d = some c) :
    c.Imaged := by
  obtain ⟨r, -, read⟩ := Option.bind_eq_some_iff.mp read
  iterate 14 obtain ⟨_, -, read⟩ := Option.bind_eq_some_iff.mp read
  obtain ⟨image, hi, read⟩ := Option.bind_eq_some_iff.mp read
  rw [← Option.some.inj read]
  unfold Record.withDefault at hi
  split at hi
  · obtain rfl := Option.some.inj hi
    simp [Imaged]
  · exact imaged_of_nullable hi

theorem Made.imaged {c : EndpointConfig} (made : c.Made) : c.Imaged := by
  induction made with
  | parsed read => exact imaged_of_decoder read
  | new => simp [Imaged, EndpointConfig.new]
  | withRevision _ _ ih => exact ih
  | withTask _ _ ih => exact ih
  | withOwner _ _ ih => exact ih
  | withReplicas _ _ _ ih => exact ih
  | renamed _ _ ih => exact ih

theorem read_word (w : UInt32) (depth : Nat) (_ : (Json.ofNat w.toNat).sorted.depth ≤ depth) :
    wordDecoder depth (Json.ofNat w.toNat).sorted.toDocument = some w := by
  have := w.toNat_lt
  simp only [Json.ofNat, Json.sorted, Json.toDocument, wordDecoder, Decoder.unsigned, Decoder.whole]
  rw [if_pos (by simp only [UInt32.size]; omega)]
  simp

/-- **A configuration is read back.** -/
theorem read_toJson {c : EndpointConfig} (imaged : c.Imaged) (depth : Nat) (h : c.toJson.sorted.depth ≤ depth) :
    decoder depth c.toJson.sorted.toDocument = some c := by
  unfold toJson at h ⊢
  obtain ⟨r, opened, holds⟩ := Json.record_sorted fields _ rfl (by decide) depth h
  refine Option.bind_eq_some_iff.mpr ⟨r, opened, ?_⟩
  simp only [holds.withDefault "endpoint_name" rfl (Json.read_text _),
    holds.required "repository" rfl (Json.read_text _), holds.withDefault "revision" rfl (Json.read_ofText? _),
    holds.withDefault "task" rfl (Json.read_ofText? _), holds.withDefault "framework" rfl (Json.read_text _),
    holds.withDefault "accelerator" rfl (Json.read_text _), holds.withDefault "instance_size" rfl (Json.read_text _),
    holds.withDefault "instance_type" rfl (Json.read_text _), holds.withDefault "region" rfl (Json.read_text _),
    holds.withDefault "vendor" rfl (Json.read_text _), holds.withDefault "namespace" rfl (Json.read_ofText? _),
    holds.withDefault "min_replica" rfl (read_word _), holds.withDefault "max_replica" rfl (read_word _),
    holds.withDefault "endpoint_type" rfl (Json.read_text _),
    holds.withDefault "custom_image" rfl (Json.read_free _ imaged)]
  rfl

end EndpointConfig

/-! ## Handles -/

namespace Service

theorem read_state (s : State) (depth : Nat) (_ : s.toJson.sorted.depth ≤ depth) :
    State.decoder depth s.toJson.sorted.toDocument = some s := by
  simp [State.toJson, Json.sorted, Json.toDocument, State.decoder, Decoder.name, State.ofName?_name]

theorem read_status (s : Status) (depth : Nat) (h : s.toJson.sorted.depth ≤ depth) :
    Status.decoder depth s.toJson.sorted.toDocument = some s := by
  unfold Status.toJson at h ⊢
  obtain ⟨r, opened, holds⟩ :=
    Json.record_sorted ["state", "prediction_url", "last_error"] _ rfl (by decide) depth h
  refine Option.bind_eq_some_iff.mpr ⟨r, opened, ?_⟩
  simp only [holds.required "state" rfl (read_state _), holds.withDefault "prediction_url" rfl (Json.read_ofText? _),
    holds.withDefault "last_error" rfl (Json.read_ofText? _)]
  rfl

/-- **A handle is read from the payload that it is kept as.** -/
theorem ofJson?_toJson {h : Service} (imaged : h.config.Imaged) (dated : h.createdAt.OnCalendar) :
    decoder.ofJson? h.toJson.sorted = some h := by
  have model (depth : Nat) (_ : (Json.string h.model.text).sorted.depth ≤ depth) :
      (Decoder.text.andThen Uuid.ofText?) depth (Json.string h.model.text).sorted.toDocument = some h.model := by
    simp [Json.sorted, Json.toDocument, Decoder.andThen, Decoder.text, Uuid.ofText?_text]
  have created (depth : Nat) (_ : (Json.string h.createdAt.text).sorted.depth ≤ depth) :
      (Decoder.text.andThen Timestamp.ofText?) depth (Json.string h.createdAt.text).sorted.toDocument =
        some h.createdAt := by
    simp [Json.sorted, Json.toDocument, Decoder.andThen, Decoder.text, Timestamp.ofText?_text dated]
  rw [Decoder.ofJson?]
  generalize fits : h.toJson.sorted.depth = depth
  replace fits := Nat.le_of_eq fits
  unfold toJson at fits ⊢
  obtain ⟨r, opened, holds⟩ :=
    Json.record_sorted ["uuid", "config", "status", "created_at"] _ rfl (by decide) depth fits
  refine Option.bind_eq_some_iff.mpr ⟨r, opened, ?_⟩
  simp only [holds.required "uuid" rfl model, holds.required "config" rfl (EndpointConfig.read_toJson imaged),
    holds.withDefault "status" rfl (read_status _), holds.required "created_at" rfl created]
  rfl

end Service

/-! ## Handles as documents -/

def EndpointConfig.imageDepth (c : EndpointConfig) : Nat := (c.customImage.getD .null).depth

theorem EndpointConfig.depth_toJson {c : EndpointConfig} (imaged : c.Imaged) :
    c.toJson.sorted.depth = c.imageDepth + 1 := by
  have image : (c.customImage.getD .null).sorted.depth = c.imageDepth := by
    unfold imageDepth
    cases same : c.customImage with
    | none => simp [Json.sorted]
    | some v => rw [Option.getD_some, Json.sorted_of_tidy v (imaged v same).1]
  unfold toJson
  rw [Json.depth_sorted_object fields _ rfl (by decide)]
  simp only [Json.sortedMembers, Json.membersDepth, Json.depth_sorted_ofText?, image]
  simp [Json.ofNat, Json.sorted, Json.depth]

theorem Service.depth_toJson {h : Service} (imaged : h.config.Imaged) :
    h.toJson.sorted.depth = h.config.imageDepth + 2 := by
  have status : h.status.toJson.sorted.depth = 1 := by
    unfold Status.toJson
    rw [Json.depth_sorted_object ["state", "prediction_url", "last_error"] _ rfl (by decide)]
    simp only [Json.sortedMembers, Json.membersDepth, Json.depth_sorted_ofText?]
    simp [State.toJson, Json.sorted, Json.depth]
  unfold toJson
  rw [Json.depth_sorted_object ["uuid", "config", "status", "created_at"] _ rfl (by decide)]
  simp only [Json.sortedMembers, Json.membersDepth, EndpointConfig.depth_toJson imaged, status]
  simp only [Json.sorted, Json.depth]
  omega

/-- The numbers in the custom image are written as texts that they are read back from. -/
def EndpointConfig.Reread (c : EndpointConfig) : Prop :=
  ∀ image, c.customImage = some image → image.Numbers Json.Number.Rereads

theorem numbers_ofNat {n : Nat} (h : n < UInt32.size) : (Json.ofNat n).Numbers Json.Number.Rereads := by
  rw [UInt32.size] at h
  rw [Json.ofNat, Json.Numbers]
  exact Json.Number.spelled_whole n (by omega) (by omega)

theorem Service.readBack_toJson {h : Service} (reread : h.config.Reread) : h.toJson.sorted.ReadBack where
  tidy := Json.tidy_sorted _
  numbers := by
    have image : (h.config.customImage.getD .null).Numbers Json.Number.Rereads := by
      cases same : h.config.customImage with
      | none => simp [Json.Numbers]
      | some v => exact reread v same
    refine Json.numbers_sorted _ ?_
    simp only [toJson, EndpointConfig.toJson, Status.toJson, State.toJson, Json.Numbers, Json.NumbersMembers,
      Json.numbers_ofText?, image, numbers_ofNat (UInt32.toNat_lt_size _), and_self]

end Deployment

end ModelDepot
