import ModelDepot.Json.Decode
import ModelDepot.Json.Writer

/-! # The configuration of an endpoint, and the request that creates it -/

namespace ModelDepot

open Json (Decoder Record record)

namespace Deployment

/-- How an endpoint is to be set up. `owner` overrides the namespace of the credentials. -/
structure EndpointConfig where
  endpointName : String
  repository : String
  revision : Option String
  task : Option String
  framework : String
  accelerator : String
  instanceSize : String
  instanceType : String
  region : String
  vendor : String
  owner : Option String
  minReplica : UInt32
  maxReplica : UInt32
  endpointType : String
  customImage : Option Json

namespace EndpointConfig

/-- The default configuration for a name and a repository. -/
def new (endpointName repository : String) : EndpointConfig where
  endpointName
  repository
  revision := none
  task := none
  framework := "pytorch"
  accelerator := "cpu"
  instanceSize := "x2"
  instanceType := "intel-icl"
  region := "us-east-1"
  vendor := "aws"
  owner := none
  minReplica := 0
  maxReplica := 1
  endpointType := "protected"
  customImage := none

/-- The prefix of the name of every endpoint that is deployed. -/
def namePrefix : String := "zenml-"

/-- The name of an endpoint for a model version: the prefix is added if it is missing, the version
always. -/
def versionedName (name version : String) : String :=
  (if name.startsWith namePrefix then name else namePrefix ++ name) ++ version

/-- The names of the fields, in order. -/
def fields : List String :=
  ["endpoint_name", "repository", "revision", "task", "framework", "accelerator", "instance_size",
   "instance_type", "region", "vendor", "namespace", "min_replica", "max_replica", "endpoint_type",
   "custom_image"]

def wordDecoder : Decoder UInt32 := fun depth d => (Decoder.unsigned UInt32.size depth d).map UInt32.ofNat

def decoder : Decoder EndpointConfig := (record fields).andThen fun r => do
  let base := new namePrefix ""
  return {
    endpointName := ← r.withDefault "endpoint_name" base.endpointName .text
    repository := ← r.required "repository" .text
    revision := ← r.withDefault "revision" none (.nullable .text)
    task := ← r.withDefault "task" none (.nullable .text)
    framework := ← r.withDefault "framework" base.framework .text
    accelerator := ← r.withDefault "accelerator" base.accelerator .text
    instanceSize := ← r.withDefault "instance_size" base.instanceSize .text
    instanceType := ← r.withDefault "instance_type" base.instanceType .text
    region := ← r.withDefault "region" base.region .text
    vendor := ← r.withDefault "vendor" base.vendor .text
    owner := ← r.withDefault "namespace" none (.nullable .text)
    minReplica := ← r.withDefault "min_replica" base.minReplica wordDecoder
    maxReplica := ← r.withDefault "max_replica" base.maxReplica wordDecoder
    endpointType := ← r.withDefault "endpoint_type" base.endpointType .text
    customImage := ← r.withDefault "custom_image" none (.nullable .free) }

def toJson (c : EndpointConfig) : Json := .object [
  ("endpoint_name", .string c.endpointName),
  ("repository", .string c.repository),
  ("revision", .ofText? c.revision),
  ("task", .ofText? c.task),
  ("framework", .string c.framework),
  ("accelerator", .string c.accelerator),
  ("instance_size", .string c.instanceSize),
  ("instance_type", .string c.instanceType),
  ("region", .string c.region),
  ("vendor", .string c.vendor),
  ("namespace", .ofText? c.owner),
  ("min_replica", .ofNat c.minReplica.toNat),
  ("max_replica", .ofNat c.maxReplica.toNat),
  ("endpoint_type", .string c.endpointType),
  ("custom_image", c.customImage.getD .null)]

end EndpointConfig

/-- The body of the request that creates an endpoint. -/
structure CreationRequest where
  name : String
  endpointType : String
  vendor : String
  region : String
  accelerator : String
  instanceType : String
  instanceSize : String
  minReplica : UInt32
  maxReplica : UInt32
  repository : String
  revision : Option String
  task : Option String
  framework : String
  image : Json

namespace CreationRequest

/-- The request for a configuration. A custom image is wrapped, the platform's own is named. -/
def ofConfig (c : EndpointConfig) : CreationRequest where
  name := c.endpointName
  endpointType := c.endpointType
  vendor := c.vendor
  region := c.region
  accelerator := c.accelerator
  instanceType := c.instanceType
  instanceSize := c.instanceSize
  minReplica := c.minReplica
  maxReplica := c.maxReplica
  repository := c.repository
  revision := c.revision
  task := c.task
  framework := c.framework
  image := match c.customImage with
    | some image => .object [("custom", image)]
    | none => .object [("huggingface", .object [])]

def decoder : Decoder CreationRequest :=
  (record ["name", "type", "provider", "compute", "model"]).andThen fun r => do
    let provider ← r.required "provider" (record ["vendor", "region"])
    let compute ← r.required "compute"
      (record ["accelerator", "instanceType", "instanceSize", "scaling"])
    let scaling ← compute.required "scaling" (record ["minReplica", "maxReplica"])
    let model ← r.required "model" (record ["repository", "revision", "task", "framework", "image"])
    return {
      name := ← r.required "name" .text
      endpointType := ← r.required "type" .text
      vendor := ← provider.required "vendor" .text
      region := ← provider.required "region" .text
      accelerator := ← compute.required "accelerator" .text
      instanceType := ← compute.required "instanceType" .text
      instanceSize := ← compute.required "instanceSize" .text
      minReplica := ← scaling.required "minReplica" EndpointConfig.wordDecoder
      maxReplica := ← scaling.required "maxReplica" EndpointConfig.wordDecoder
      repository := ← model.required "repository" .text
      revision := ← model.optional "revision" .text
      task := ← model.optional "task" .text
      framework := ← model.required "framework" .text
      image := ← model.required "image" .free }

/-- A member that is left out if it is absent. -/
def present (key : String) : Option String → List (String × Json)
  | none => []
  | some s => [(key, .string s)]

def toJson (c : CreationRequest) : Json := .object [
  ("name", .string c.name),
  ("type", .string c.endpointType),
  ("provider", .object [("vendor", .string c.vendor), ("region", .string c.region)]),
  ("compute", .object [
    ("accelerator", .string c.accelerator),
    ("instanceType", .string c.instanceType),
    ("instanceSize", .string c.instanceSize),
    ("scaling", .object [
      ("minReplica", .ofNat c.minReplica.toNat), ("maxReplica", .ofNat c.maxReplica.toNat)])]),
  ("model", .object (
    [("repository", .string c.repository)] ++ present "revision" c.revision ++
    present "task" c.task ++ [("framework", .string c.framework), ("image", c.image)]))]

end CreationRequest

end Deployment

end ModelDepot
