import ModelDepot.Artifact.Memory
import ModelDepot.Proofs.Json.Copies

/-! # Registries keep what was saved

What a registry hands out under a version of a name was saved under that version, whatever else was asked
of it since. This is said of one name, and of any registry that nobody else changes.
-/

namespace ModelDepot

open Json (Copied)

namespace Artifact

/-- What was saved under a name: the version and the payload. -/
structure Saved where
  version : String
  payload : Json

end Artifact

open Artifact (Saved)

namespace Registry

variable {ρ : Type}

/-- The states of a registry stand for what has been saved under a name, and what is loaded is one of it,
read again perhaps. -/
structure Keeping (reg : Registry ρ) (name : String) (Holds : List Saved → ρ → Prop) : Prop where
  accepted : ∀ {saved r version payload options now v r'}, Holds saved r →
    reg.save name version payload options now r = (.ok v, r') → Holds (saved ++ [⟨version, payload⟩]) r'
  refused : ∀ {saved r version payload options now e r'}, Holds saved r →
    reg.save name version payload options now r = (.error e, r') → Holds saved r'
  logged : ∀ {saved r} version metadata, Holds saved r → Holds saved (reg.log name version metadata r).2
  loaded : ∀ {saved r version a}, Holds saved r → reg.load name version r = .ok a →
    ∃ s ∈ saved, s.version = version ∧ Copied s.payload a.payload

end Registry

/-! ## In memory -/

namespace Artifact

namespace Memory

variable {m : Memory} {name : String} {saved : List Saved}

/-- The artifacts of a name are those that were saved. -/
def Holds (name : String) (saved : List Saved) (m : Memory) : Prop :=
  ∀ k a, (k, a) ∈ m.artifacts →
    ∀ version, k = label name version → ∃ s ∈ saved, s.version = version ∧ s.payload = a.payload

theorem label_inj {name version version' : String} (h : label name version = label name version') :
    version = version' := by
  have chars := congrArg String.toList h
  simp only [label, String.toList_append] at chars
  exact String.toList_inj.mp (List.append_cancel_left chars)

theorem Holds.add (holds : Holds name saved m) (version : String) (payload : Json) (v : Version) :
    Holds name (saved ++ [⟨version, payload⟩]) (m.add (label name version) ⟨v, payload, []⟩) := by
  intro k a mem w same
  obtain mem | mem := List.mem_append.mp mem
  · obtain ⟨s, hs, found⟩ := holds k a mem w same
    exact ⟨s, List.mem_append_left _ hs, found⟩
  · obtain ⟨rfl, rfl⟩ := Prod.mk.inj (List.mem_singleton.mp mem)
    exact ⟨⟨version, payload⟩, by simp, label_inj same, rfl⟩

theorem Holds.modify (holds : Holds name saved m) (k : String) (more : Json.Members) :
    Holds name saved (m.modify k (·.addMetadata more)) := by
  intro l a mem w same
  obtain ⟨⟨l', b⟩, hb, eq⟩ := List.mem_map.mp mem
  obtain ⟨rfl, rfl⟩ := Prod.mk.inj eq
  obtain ⟨s, hs, version, payload⟩ := holds l' b hb w same
  refine ⟨s, hs, version, ?_⟩
  rw [payload]
  split <;> rfl

theorem keeping (name : String) : Registry.memory.Keeping name (Holds name) where
  accepted := by
    intro saved m version payload options now v m' holds h
    simp only [Registry.memory, save] at h
    split at h
    · simp at h
    split at h
    · simp at h
    obtain ⟨-, rfl⟩ := Prod.mk.inj h
    exact holds.add version payload _
  refused := by
    intro saved m version payload options now e m' holds h
    simp only [Registry.memory, save] at h
    split at h
    · exact (Prod.mk.inj h).2 ▸ holds
    split at h
    · exact (Prod.mk.inj h).2 ▸ holds
    · simp at h
  logged := by
    intro saved m version metadata holds
    simp only [Registry.memory, log]
    split
    · exact holds.modify _ metadata
    · exact holds
  loaded := by
    intro saved m version a holds h
    simp only [Registry.memory, load] at h
    split at h
    · next b found =>
      obtain rfl := Except.ok.inj h
      obtain ⟨before, after, split, -⟩ := List.lookup_eq_some_iff.mp found
      obtain ⟨s, hs, version, payload⟩ := holds _ b (by simp [split]) version rfl
      exact ⟨s, hs, version, payload ▸ .same _⟩
    · simp at h

theorem holds_empty (name : String) : Holds name [] empty := by simp [Holds, empty]

end Memory

end Artifact

end ModelDepot
