import ModelDepot.Artifact.Basic
import ModelDepot.Artifact.Error

/-! # Registries

A registry keeps artifacts under a name and a version. What follows holds for every kind of registry:
which names and versions may be used, what a registry can be asked, and in which order versions are
listed.
-/

namespace ModelDepot

open Json (Members)

namespace Artifact

/-- The text can be the name of a directory: not empty, not a dot name, without separators. -/
def isSegment (s : String) : Bool :=
  s ≠ "" && s ≠ "." && s ≠ ".." && s.toList.all fun c => c ≠ '/' && c ≠ '\\'

/-- Refuses a text that is not a segment; `role` says what the text was meant for. -/
def requireSegment (role text : String) : Except Error Unit :=
  if isSegment text then .ok () else .error (.invalidName (role ++ " '" ++ text ++ "'"))

/-- A name and a version that may both be used. The name is looked at first. -/
def requireSegments (name version : String) : Except Error Unit := do
  requireSegment "name" name
  requireSegment "version" version

/-- A name and a version as error texts show them. -/
def label (name version : String) : String := name ++ "@" ++ version

/-- Records ordered by the time of their creation, ties in the order given. -/
def oldestFirst (vs : List Version) : List Version :=
  vs.mergeSort fun a b => a.createdAt.le b.createdAt

end Artifact

/-- What a registry with states `ρ` can be asked. Every answer comes with the state after it. -/
structure Registry (ρ : Type) where
  save (name version : String) (payload : Json) (options : Artifact.SaveOptions) (now : Timestamp)
    (r : ρ) : Except Artifact.Error Artifact.Version × ρ
  log (name version : String) (metadata : Members) (r : ρ) : Except Artifact.Error Unit × ρ
  load (name version : String) (r : ρ) : Except Artifact.Error StoredArtifact
  versions (name : String) (r : ρ) : Except Artifact.Error (List Artifact.Version)

namespace Registry

variable {σ ρ : Type}

/-- A registry beside other things that it leaves alone. -/
def beside (reg : Registry ρ) : Registry (σ × ρ) where
  save name version payload options now w :=
    let (result, r) := reg.save name version payload options now w.2
    (result, (w.1, r))
  log name version metadata w :=
    let (result, r) := reg.log name version metadata w.2
    (result, (w.1, r))
  load name version w := reg.load name version w.2
  versions name w := reg.versions name w.2

def metadata (reg : Registry ρ) (name version : String) (r : ρ) :
    Except Artifact.Error Members :=
  (reg.load name version r).map (·.metadata)

end Registry

end ModelDepot
