import ModelDepot.Artifact.Basic
import ModelDepot.Proofs.Json.Copies
import ModelDepot.Proofs.Time.Reading

/-! # Artifacts are read back

The document of an artifact is read as that artifact, if its payload and its metadata are read back and nest
no deeper than documents may. If they nest deeper it is not read at all.
-/

namespace ModelDepot

open Json (Decoder Members)

namespace Json

/-- A free-form value that is read back as it was. -/
structure ReadBack (v : Json) : Prop where
  tidy : v.Tidy
  numbers : v.Numbers Number.Rereads

theorem Members.ReadBack.extend {base more : Members} (hb : base.ReadBack) (hm : more.ReadBack) :
    Members.ReadBack (Members.extend base more) where
  tidy := by
    obtain ⟨sorted, values⟩ : Members.Sorted base ∧ TidyMembers base := by simpa only [Tidy] using hb.tidy
    obtain ⟨-, others⟩ : Members.Sorted more ∧ TidyMembers more := by simpa only [Tidy] using hm.tidy
    rw [tidyMembers_iff] at values others
    rw [Tidy, tidyMembers_iff]
    refine ⟨Members.sorted_extend _ _ sorted, fun m mem => ?_⟩
    exact (Members.mem_extend _ _ m mem).elim (values m) (others m)
  numbers := by
    have values : NumbersMembers Number.Rereads base := by simpa only [Numbers] using hb.numbers
    have others : NumbersMembers Number.Rereads more := by simpa only [Numbers] using hm.numbers
    rw [numbersMembers_iff] at values others
    rw [Numbers, numbersMembers_iff]
    exact fun m mem => (Members.mem_extend _ _ m mem).elim (values m) (others m)

end Json

namespace Artifact

theorem Version.decoder_spelled (v : Version) (dated : v.createdAt.OnCalendar) (depth : Nat) :
    Version.decoder (depth + 1) v.toJson.spelled = some v := by
  have opened := Json.record_spelled Version.fields
    [("name", .string v.name), ("version", .string v.version), ("artifact_type", v.kind.toJson),
      ("is_deployment_artifact", .bool v.isDeployment), ("created_at", .string v.createdAt.text)] rfl (by decide) depth
  unfold Version.decoder Decoder.andThen Version.toJson
  rw [opened, Option.bind_some]
  rw [Json.required_of_lookup _ _ _ "name" _ (.string v.name) rfl,
    Json.required_of_lookup _ _ _ "version" _ (.string v.version) rfl,
    Json.required_of_lookup _ _ _ "artifact_type" _ v.kind.toJson rfl,
    Json.withDefault_of_lookup _ _ _ "is_deployment_artifact" _ _ (.bool v.isDeployment) rfl,
    Json.required_of_lookup _ _ _ "created_at" _ (.string v.createdAt.text) rfl]
  simp [Json.spelled, Decoder.text, Kind.decoder, Kind.toJson, Decoder.name, Kind.ofName?_name, Decoder.flag,
    Timestamp.ofText?_text dated]

end Artifact

namespace StoredArtifact

/-- What can be stored: the artifact was saved at a time that has a date, and its parts are read back. -/
structure Storable (a : StoredArtifact) : Prop where
  dated : a.version.createdAt.OnCalendar
  payload : a.payload.ReadBack
  metadata : a.metadata.ReadBack

variable {a : StoredArtifact}

theorem Storable.addMetadata (storable : a.Storable) {more : Members} (h : more.ReadBack) :
    (a.addMetadata more).Storable := ⟨storable.dated, storable.payload, storable.metadata.extend h⟩

theorem ofBytes?_of_parts (dated : a.version.createdAt.OnCalendar) {payload : Json} {metadata : Members}
    (readPayload : Json.Document.toJson? 126 a.payload.spelled = some payload)
    (readMetadata : Decoder.dictionary 126 (Json.object a.metadata).spelled = some metadata) :
    decoder.ofBytes? a.toJson.toIndentedBytes = some ⟨a.version, payload, metadata⟩ := by
  have opened := Json.record_spelled fields
    [("version", a.version.toJson), ("payload", a.payload), ("metadata", .object a.metadata)] rfl (by decide) 126
  rw [Decoder.ofBytes?, (Json.ofBytes?_written _).2, Option.bind_some]
  unfold decoder Decoder.andThen toJson
  rw [show Json.Document.maxDepth = 126 + 1 from rfl, opened, Option.bind_some,
    Json.required_of_lookup _ _ _ "version" _ a.version.toJson rfl, a.version.decoder_spelled dated 125,
    Json.required_of_lookup _ _ _ "payload" _ a.payload rfl,
    Json.withDefault_of_lookup _ _ _ "metadata" _ _ (.object a.metadata) rfl, Decoder.free, readPayload, readMetadata]
  rfl

theorem depths_of_shallow (shallow : a.toJson.depth ≤ Json.Document.maxDepth) :
    a.payload.depth ≤ 126 ∧ Json.membersDepth a.metadata ≤ 125 := by
  simp only [toJson, Json.depth, Json.membersDepth, Json.Document.maxDepth] at shallow
  omega

/-- **A stored artifact is read back.** -/
theorem Storable.ofBytes? (storable : a.Storable) (shallow : a.toJson.depth ≤ Json.Document.maxDepth) :
    decoder.ofBytes? a.toJson.toIndentedBytes = some a := by
  obtain ⟨payload, metadata⟩ := depths_of_shallow shallow
  have sorted : Members.Sorted a.metadata ∧ Json.TidyMembers a.metadata := by
    simpa only [Json.Tidy] using storable.metadata.tidy
  have numbers : Json.NumbersMembers Json.Number.Rereads a.metadata := by
    simpa only [Json.Numbers] using storable.metadata.numbers
  have members := Json.membersToJson?_spelledMembers a.metadata sorted.2 numbers 125 metadata
  exact ofBytes?_of_parts storable.dated
    (Json.toJson?_spelled a.payload storable.payload.tidy storable.payload.numbers 126 payload)
    (by simp [Json.spelled, Decoder.dictionary, members, Members.ofList_of_sorted _ sorted.1])

theorem parts_of_decoded {b : StoredArtifact} (h : decoder.ofBytes? a.toJson.toIndentedBytes = some b) :
    Json.Document.toJson? 126 a.payload.spelled = some b.payload ∧
      Decoder.dictionary 126 (Json.object a.metadata).spelled = some b.metadata := by
  have opened := Json.record_spelled fields
    [("version", a.version.toJson), ("payload", a.payload), ("metadata", .object a.metadata)] rfl (by decide) 126
  rw [Decoder.ofBytes?, (Json.ofBytes?_written a.toJson).2, Option.bind_some, decoder, Decoder.andThen] at h
  unfold toJson at h
  rw [show Json.Document.maxDepth = 126 + 1 from rfl, opened, Option.bind_some] at h
  obtain ⟨_, -, h⟩ := Option.bind_eq_some_iff.mp h
  obtain ⟨payload, readPayload, h⟩ := Option.bind_eq_some_iff.mp h
  obtain ⟨metadata, readMetadata, h⟩ := Option.bind_eq_some_iff.mp h
  rw [Json.required_of_lookup _ _ _ "payload" _ a.payload rfl] at readPayload
  rw [Json.withDefault_of_lookup _ _ _ "metadata" _ _ (.object a.metadata) rfl] at readMetadata
  rw [← Option.some.inj h]
  exact ⟨readPayload, readMetadata⟩

theorem depth_of_decoded {b : StoredArtifact} (h : decoder.ofBytes? a.toJson.toIndentedBytes = some b) :
    a.toJson.depth ≤ Json.Document.maxDepth := by
  obtain ⟨payload, metadata⟩ := parts_of_decoded h
  have deep := Json.depth_le_of_toJson? _ _ _ payload
  rw [Json.spelled, Decoder.dictionary] at metadata
  obtain ⟨ms, members, -⟩ := Option.map_eq_some_iff.mp metadata
  have within := Json.membersDepth_le_of_membersToJson? _ _ _ members
  simp only [toJson, Artifact.Version.toJson, Artifact.Kind.toJson, Json.depth, Json.membersDepth,
    Json.Document.maxDepth]
  omega

/-- **What can be stored is read back exactly if it nests no deeper than documents may.** -/
theorem Storable.ofBytes?_eq (storable : a.Storable) :
    decoder.ofBytes? a.toJson.toIndentedBytes = if a.toJson.depth ≤ Json.Document.maxDepth then some a else none := by
  split
  · next shallow => exact storable.ofBytes? shallow
  · next deep => exact Option.eq_none_iff_forall_ne_some.mpr fun _ h => deep (depth_of_decoded h)

end StoredArtifact

end ModelDepot
