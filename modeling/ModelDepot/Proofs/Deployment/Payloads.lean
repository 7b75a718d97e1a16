import ModelDepot.Deployment.Service
import ModelDepot.Proofs.Json.Copies

/-! # What the payload of a handle says

The payload that a handle is kept as names the endpoint and the namespace of the handle. So does every copy
of it, and a handle that is read from one has them.
-/

namespace ModelDepot

open Json (Copied Decoder Members Record record)

namespace Deployment

/-- A payload names the endpoint of a configuration and its namespace, or that it has none. -/
def Carries (payload : Json) (c : EndpointConfig) : Prop :=
  ∃ config, payload.member? "config" = some config ∧
    config.member? "endpoint_name" = some (.string c.endpointName) ∧
    config.member? "namespace" = some (.ofText? c.owner)

theorem sorted_ofText? (s : Option String) : (Json.ofText? s).sorted = .ofText? s := by
  cases s <;> simp [Json.ofText?, Json.sorted]

theorem carries_sorted (h : Service) : Carries h.toJson.sorted h.config := by
  refine ⟨h.config.toJson.sorted, ?_, ?_, ?_⟩
  · rw [Service.toJson, Json.member?_sorted ["uuid", "config", "status", "created_at"] _ rfl (by decide)]
    rfl
  · rw [EndpointConfig.toJson, Json.member?_sorted EndpointConfig.fields _ rfl (by decide)]
    rfl
  · rw [EndpointConfig.toJson, Json.member?_sorted EndpointConfig.fields _ rfl (by decide)]
    exact congrArg some (sorted_ofText? h.config.owner)

theorem Carries.of_eq {payload : Json} {c c' : EndpointConfig} (carries : Carries payload c)
    (name : c'.endpointName = c.endpointName) (owner : c'.owner = c.owner) : Carries payload c' := by
  unfold Carries
  rw [name, owner]
  exact carries

theorem Carries.endpointName_eq {payload : Json} {c c' : EndpointConfig} (carries : Carries payload c)
    (carries' : Carries payload c') : c.endpointName = c'.endpointName := by
  obtain ⟨config, found, name, -⟩ := carries
  obtain ⟨config', found', name', -⟩ := carries'
  obtain rfl := Option.some.inj (found.symm.trans found')
  simpa using name.symm.trans name'

theorem Carries.copied {payload copy : Json} {c : EndpointConfig} (carries : Carries payload c)
    (tidy : payload.Tidy) (copied : Copied payload copy) : Carries copy c := by
  obtain ⟨config, found, name, owner⟩ := carries
  have tidyConfig := Json.tidy_of_member? tidy found
  obtain ⟨config', found', copied'⟩ := copied.member? tidy "config" found
  obtain ⟨name', foundName, copiedName⟩ := copied'.member? tidyConfig "endpoint_name" name
  obtain ⟨owner', foundOwner, copiedOwner⟩ := copied'.member? tidyConfig "namespace" owner
  exact ⟨config', found', copiedName.eq_string ▸ foundName, copiedOwner.eq_ofText? ▸ foundOwner⟩

/-! ## Reading a handle -/

section
variable {fields : List String} {depth : Nat} {v : Json} {r : Record}

theorem part?_of_record (read : record fields depth v.toDocument = some r) {k : String} {x : Json}
    (member : v.member? k = some x) : r.part? k = some x.toDocument := by
  cases v with
  | object ms =>
    cases depth with
    | zero => simp [record] at read
    | succ below =>
      rw [Json.toDocument, record] at read
      split at read
      · rw [← Option.some.inj read, Record.part?]
        simp only [Json.membersToDocuments_eq, Json.lookup_map_values]
        exact congrArg (Option.map _) member
      · simp at read
  | _ => simp [Json.member?] at member

end

theorem EndpointConfig.of_decoder {depth : Nat} {v : Json} {c : EndpointConfig}
    (read : EndpointConfig.decoder depth v.toDocument = some c) {name : String} {owner : Option String}
    (hasName : v.member? "endpoint_name" = some (.string name))
    (hasOwner : v.member? "namespace" = some (.ofText? owner)) : c.endpointName = name ∧ c.owner = owner := by
  obtain ⟨r, opened, read⟩ := Option.bind_eq_some_iff.mp read
  obtain ⟨name', hn, read⟩ := Option.bind_eq_some_iff.mp read
  iterate 9 obtain ⟨_, -, read⟩ := Option.bind_eq_some_iff.mp read
  obtain ⟨owner', ho, read⟩ := Option.bind_eq_some_iff.mp read
  iterate 4 obtain ⟨_, -, read⟩ := Option.bind_eq_some_iff.mp read
  rw [← Option.some.inj read]
  rw [Record.withDefault, part?_of_record opened hasName] at hn
  rw [Record.withDefault, part?_of_record opened hasOwner] at ho
  constructor
  · simpa [Json.toDocument, Decoder.text] using hn.symm
  · cases owner <;> simpa [Json.toDocument, Json.ofText?, Decoder.nullable, Decoder.text] using ho.symm

theorem Service.of_decoder {payload : Json} {h : Service} {c : EndpointConfig}
    (read : Service.decoder.ofJson? payload = some h) (carries : Carries payload c) :
    h.config.endpointName = c.endpointName ∧ h.config.owner = c.owner := by
  obtain ⟨config, found, name, owner⟩ := carries
  obtain ⟨r, opened, read⟩ := Option.bind_eq_some_iff.mp read
  obtain ⟨_, -, read⟩ := Option.bind_eq_some_iff.mp read
  obtain ⟨config', hc, read⟩ := Option.bind_eq_some_iff.mp read
  iterate 2 obtain ⟨_, -, read⟩ := Option.bind_eq_some_iff.mp read
  rw [Record.required, part?_of_record opened found] at hc
  rw [← Option.some.inj read]
  exact EndpointConfig.of_decoder hc name owner

end Deployment

end ModelDepot
