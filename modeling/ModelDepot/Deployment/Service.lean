import ModelDepot.Deployment.Credentials
import ModelDepot.Deployment.Endpoint
import ModelDepot.Deployment.EndpointConfig
import ModelDepot.Time.Timestamp
import ModelDepot.Uuid

/-! # Handles of deployed services

A `Service` is the handle of one endpoint: which model it serves, how it was set up, and what was
last seen of it. Handles are kept as artifacts, so that a later run can take them up again.
-/

namespace ModelDepot

open Json (Decoder record)

namespace Deployment

namespace Service

/-- The state of a service. -/
inductive State where
  | inactive
  | pendingStartup
  | active
  | pendingShutdown
  | error
  deriving DecidableEq, Repr, Inhabited

namespace State

def name : State → String
  | inactive => "inactive"
  | pendingStartup => "pending_startup"
  | active => "active"
  | pendingShutdown => "pending_shutdown"
  | error => "error"

def ofName? : String → Option State
  | "inactive" => some inactive
  | "pending_startup" => some pendingStartup
  | "active" => some active
  | "pending_shutdown" => some pendingShutdown
  | "error" => some error
  | _ => none

theorem ofName?_name (s : State) : ofName? s.name = some s := by cases s <;> rfl

/-- The state after the endpoint was seen in a state; the unknown one tells nothing. -/
def after (s : State) : Endpoint.State → State
  | .running => active
  | .scaledToZero => active
  | .pending => pendingStartup
  | .initializing => pendingStartup
  | .updating => pendingStartup
  | .paused => inactive
  | .failed => error
  | .updateFailed => error
  | .unknown => s

def decoder : Decoder State := Decoder.name ofName?

def toJson (s : State) : Json := .string s.name

end State

/-- What was last seen of the endpoint. -/
structure Status where
  state : State
  predictionUrl : Option String
  lastError : Option String
  deriving DecidableEq, Repr

namespace Status

def initial : Status := ⟨.inactive, none, none⟩

def decoder : Decoder Status := (record ["state", "prediction_url", "last_error"]).andThen fun r => do
  return {
    state := ← r.required "state" State.decoder
    predictionUrl := ← r.withDefault "prediction_url" none (.nullable .text)
    lastError := ← r.withDefault "last_error" none (.nullable .text) }

def toJson (s : Status) : Json := .object [
  ("state", s.state.toJson),
  ("prediction_url", .ofText? s.predictionUrl),
  ("last_error", .ofText? s.lastError)]

end Status

end Service

/-- The handle of a deployed service. -/
structure Service where
  model : Uuid
  config : EndpointConfig
  status : Service.Status
  createdAt : Timestamp

namespace Service

/-- A new handle; nothing is deployed yet. -/
def new (model : Uuid) (config : EndpointConfig) (now : Timestamp) : Service :=
  ⟨model, config, .initial, now⟩

def endpointName (s : Service) : String := s.config.endpointName

/-- The namespace of the endpoint: that of the configuration, else that of the credentials. -/
def owner (s : Service) (c : Credentials) : String := s.config.owner.getD c.owner

def isRunning (s : Service) : Bool := s.status.state == .active

def healthUrl (s : Service) : Option String :=
  s.status.predictionUrl.map fun url => Text.trimEnd url '/' ++ "/health"

/-- What is told about the server of the service. -/
def serverInfo (s : Service) : List (String × Option String) :=
  [("PREDICTION_URL", s.status.predictionUrl), ("HEALTH_CHECK_URL", s.healthUrl)]

def inState (s : Service) (state : State) : Service := { s with status.state := state }

/-- The handle after the endpoint was described. The message is kept only if the endpoint failed. -/
def seen (s : Service) (info : Endpoint.Info) : Service :=
  { s with status := {
      state := s.status.state.after info.status.state
      predictionUrl := info.status.url
      lastError := if info.status.state.isFailed then info.status.message else s.status.lastError } }

def afterFailure (s : Service) (text : String) : Service :=
  { s with status.state := .error, status.lastError := some text }

/-- The handle after the endpoint was given up. -/
def released (s : Service) : Service :=
  { s with status.state := .inactive, status.predictionUrl := none }

def decoder : Decoder Service := (record ["uuid", "config", "status", "created_at"]).andThen fun r => do
  return {
    model := ← r.required "uuid" (Decoder.text.andThen Uuid.ofText?)
    config := ← r.required "config" EndpointConfig.decoder
    status := ← r.withDefault "status" .initial Status.decoder
    createdAt := ← r.required "created_at" (Decoder.text.andThen Timestamp.ofText?) }

def toJson (s : Service) : Json := .object [
  ("uuid", .string s.model.text),
  ("config", s.config.toJson),
  ("status", s.status.toJson),
  ("created_at", .string s.createdAt.text)]

end Service

end Deployment

end ModelDepot
