import ModelDepot.Artifact.Registry

/-! # The registry in memory

Artifacts are kept under the label that joins name and version, in the order in which they were
saved. Names and versions are checked when something is saved.
-/

namespace ModelDepot

open Json (Members)

namespace Artifact

/-- Artifacts by label, oldest first. -/
structure Memory where
  artifacts : List (String × StoredArtifact)

namespace Memory

def empty : Memory := ⟨[]⟩

def size (m : Memory) : Nat := m.artifacts.length

def get? (m : Memory) (label : String) : Option StoredArtifact := m.artifacts.lookup label

def add (m : Memory) (label : String) (a : StoredArtifact) : Memory :=
  ⟨m.artifacts ++ [(label, a)]⟩

def modify (m : Memory) (label : String) (f : StoredArtifact → StoredArtifact) : Memory :=
  ⟨m.artifacts.map fun (k, a) => (k, if k = label then f a else a)⟩

def save (name version : String) (payload : Json) (options : SaveOptions) (now : Timestamp)
    (m : Memory) : Except Error Version × Memory :=
  match requireSegments name version with
  | .error e => (.error e, m)
  | .ok () =>
    if (m.get? (label name version)).isSome then (.error (.alreadyExists (label name version)), m)
    else
      let v := Version.new name version options now
      (.ok v, m.add (label name version) ⟨v, payload, []⟩)

def log (name version : String) (metadata : Members) (m : Memory) : Except Error Unit × Memory :=
  if (m.get? (label name version)).isSome then
    (.ok (), m.modify (label name version) (·.addMetadata metadata))
  else (.error (.notFound (label name version)), m)

/-- The artifact of a name and a version. -/
def load (name version : String) (m : Memory) : Except Error StoredArtifact :=
  match m.get? (label name version) with
  | some a => .ok a
  | none => .error (.notFound (label name version))

/-- The versions of a name, oldest first. -/
def versions (name : String) (m : Memory) : Except Error (List Version) :=
  .ok (oldestFirst ((m.artifacts.map (·.2.version)).filter (·.name == name)))

end Memory

end Artifact

def Registry.memory : Registry Artifact.Memory where
  save := Artifact.Memory.save
  log := Artifact.Memory.log
  load := Artifact.Memory.load
  versions := Artifact.Memory.versions

end ModelDepot
