import ModelDepot.Deployment.Endpoint
import ModelDepot.Deployment.EndpointConfig
import ModelDepot.Deployment.Environment

/-! # The platform's interface

The platform is known only by its answers. An `Api` with states `σ` answers one request at a time;
nothing is assumed about which answer it gives.
-/

namespace ModelDepot

namespace Deployment

/-- What the platform can be asked about an endpoint. -/
inductive Call where
  | get (name : String)
  | create (request : CreationRequest)
  | pause (name : String)
  | resume (name : String)
  | delete (name : String)

namespace Call

/-- What a call that succeeds answers. An endpoint that is missing is an answer to `get` only. -/
def Answer : Call → Type
  | get _ => Option Endpoint.Info
  | delete _ => Unit
  | _ => Endpoint.Info

/-- The name of the endpoint that a call is about. -/
def endpoint : Call → String
  | get name => name
  | create request => request.name
  | pause name => name
  | resume name => name
  | delete name => name

end Call

/-- A request as the platform receives it, with the process environment it is sent in and the time
at which it is sent, on the clock of the operation that it belongs to. -/
structure Request where
  time : Span
  environment : Environment
  credentials : Credentials
  owner : String
  call : Call

/-- A platform with states `σ`. -/
structure Api (σ : Type) where
  answer : (r : Request) → σ → Except Error r.call.Answer × σ

/-- A platform beside other things that it leaves alone. -/
def Api.beside {σ ρ : Type} (api : Api σ) : Api (σ × ρ) where
  answer r w :=
    let (answer, s) := api.answer r w.1
    (answer, (s, w.2))

end Deployment

end ModelDepot
