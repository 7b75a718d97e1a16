import ModelDepot.Json.Decode
import ModelDepot.Json.Writer
import ModelDepot.Time.Timestamp

/-! # Artifacts

An artifact is a payload kept under a name and a version, with a record of what it is and when it
was saved, and with metadata that may be added later.
-/

namespace ModelDepot

open Json (Decoder Members Record record)

namespace Artifact

/-- What an artifact is. -/
inductive Kind where
  | data
  | model
  | service
  | schema
  | statistics
  deriving DecidableEq, Repr, Inhabited

namespace Kind

def name : Kind → String
  | data => "data"
  | model => "model"
  | service => "service"
  | schema => "schema"
  | statistics => "statistics"

def ofName? : String → Option Kind
  | "data" => some data
  | "model" => some model
  | "service" => some service
  | "schema" => some schema
  | "statistics" => some statistics
  | _ => none

theorem ofName?_name (k : Kind) : ofName? k.name = some k := by cases k <;> rfl

def decoder : Decoder Kind := Decoder.name ofName?

def toJson (k : Kind) : Json := .string k.name

end Kind

/-- How an artifact is saved. -/
structure SaveOptions where
  kind : Kind
  isDeployment : Bool
  deriving DecidableEq, Repr

namespace SaveOptions

def default : SaveOptions := ⟨.data, false⟩

def deployment : SaveOptions := ⟨.service, true⟩

def withKind (o : SaveOptions) (k : Kind) : SaveOptions := { o with kind := k }

end SaveOptions

/-- The record of one version of an artifact. -/
structure Version where
  name : String
  version : String
  kind : Kind
  isDeployment : Bool
  createdAt : Timestamp
  deriving DecidableEq, Repr

namespace Version

/-- The record of a version saved now. -/
def new (name version : String) (options : SaveOptions) (now : Timestamp) : Version :=
  ⟨name, version, options.kind, options.isDeployment, now⟩

/-- The names of the fields, in order. -/
def fields : List String :=
  ["name", "version", "artifact_type", "is_deployment_artifact", "created_at"]

def decoder : Decoder Version := (record fields).andThen fun r => do
  return {
    name := ← r.required "name" .text
    version := ← r.required "version" .text
    kind := ← r.required "artifact_type" Kind.decoder
    isDeployment := ← r.withDefault "is_deployment_artifact" false .flag
    createdAt := ← r.required "created_at" (Decoder.text.andThen Timestamp.ofText?) }

def toJson (v : Version) : Json := .object [
  ("name", .string v.name),
  ("version", .string v.version),
  ("artifact_type", v.kind.toJson),
  ("is_deployment_artifact", .bool v.isDeployment),
  ("created_at", .string v.createdAt.text)]

end Version

end Artifact

/-- An artifact as it is kept. -/
structure StoredArtifact where
  version : Artifact.Version
  payload : Json
  metadata : Members

namespace StoredArtifact

/-- The names of the fields, in order. -/
def fields : List String := ["version", "payload", "metadata"]

def decoder : Decoder StoredArtifact := (record fields).andThen fun r => do
  return {
    version := ← r.required "version" Artifact.Version.decoder
    payload := ← r.required "payload" .free
    metadata := ← r.withDefault "metadata" [] .dictionary }

def toJson (a : StoredArtifact) : Json := .object [
  ("version", a.version.toJson),
  ("payload", a.payload),
  ("metadata", .object a.metadata)]

/-- Adds metadata; of equal keys the later one wins. -/
def addMetadata (a : StoredArtifact) (more : Members) : StoredArtifact :=
  { a with metadata := Members.extend a.metadata more }

end StoredArtifact

end ModelDepot
