import ModelDepot.Json.Decode
import ModelDepot.Json.Writer

/-! # Inference endpoints as the platform describes them -/

namespace ModelDepot

open Json (Decoder record)

namespace Deployment

namespace Endpoint

/-- The state of an endpoint. -/
inductive State where
  | pending
  | initializing
  | updating
  | updateFailed
  | running
  | paused
  | failed
  | scaledToZero
  | unknown
  deriving DecidableEq, Repr, Inhabited

namespace State

def all : List State :=
  [pending, initializing, updating, updateFailed, running, paused, failed, scaledToZero, unknown]

def name : State → String
  | pending => "pending"
  | initializing => "initializing"
  | updating => "updating"
  | updateFailed => "updateFailed"
  | running => "running"
  | paused => "paused"
  | failed => "failed"
  | scaledToZero => "scaledToZero"
  | unknown => "unknown"

/-- The state with a name; a name that is not known stands for the unknown state. -/
def ofName (s : String) : State := (all.find? (·.name == s)).getD unknown

theorem ofName_name (s : State) : ofName s.name = s := by cases s <;> rfl

/-- The endpoint can serve, if need be after scaling up. -/
def isReady : State → Bool
  | running => true
  | scaledToZero => true
  | _ => false

def isFailed : State → Bool
  | failed => true
  | updateFailed => true
  | _ => false

def decoder : Decoder State := Decoder.name fun s => some (ofName s)

def toJson (s : State) : Json := .string s.name

end State

/-- The status of an endpoint. -/
structure Status where
  state : State
  url : Option String
  message : Option String
  deriving DecidableEq, Repr

namespace Status

def unknown : Status := ⟨.unknown, none, none⟩

def decoder : Decoder Status := (record ["state", "url", "message"]).andThen fun r => do
  return {
    state := ← r.withDefault "state" .unknown State.decoder
    url := ← r.withDefault "url" none (.nullable .text)
    message := ← r.withDefault "message" none (.nullable .text) }

def toJson (s : Status) : Json := .object [
  ("state", s.state.toJson), ("url", .ofText? s.url), ("message", .ofText? s.message)]

end Status

/-- The description of an endpoint. -/
structure Info where
  name : String
  status : Status
  deriving DecidableEq, Repr

namespace Info

def decoder : Decoder Info := (record ["name", "status"]).andThen fun r => do
  return {
    name := ← r.required "name" .text
    status := ← r.withDefault "status" .unknown Status.decoder }

def toJson (i : Info) : Json := .object [("name", .string i.name), ("status", i.status.toJson)]

end Info

end Endpoint

end Deployment

end ModelDepot
