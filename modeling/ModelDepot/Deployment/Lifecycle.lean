import ModelDepot.Deployment.Api
import ModelDepot.Deployment.Service

/-! # The life of an endpoint

Starting, stopping and releasing the endpoint behind a handle. Every operation is a function of the
platform that answers it: it returns its result together with the handle and the platform as they
are afterwards, whether it succeeded or not. Requests take no time; a wait polls, and time passes
only between its polls, exactly as much as is asked for: that a timer may wake up a little later
is left out.
-/

namespace ModelDepot

namespace Deployment

/-- The clock that waits go by: the last time that it can tell, counted from the beginning of an operation, and how
many polls can follow one another without a pause, since an interval of zero lets no time pass. -/
structure Clock where
  horizon : Span
  patience : Nat

/-- A clock that counts seconds in 64 bits, one of them for the sign. -/
def Clock.wide (patience : Nat) : Clock := ⟨⟨0x8000000000000000 * 1000000000 - 1⟩, patience⟩

/-- How long to wait, how often to look, and by which clock. -/
structure Pace where
  timeout : Span
  interval : Span
  clock : Clock

namespace Pace

/-- A wait that begins now has a deadline that the clock cannot tell. -/
def Overruns (pace : Pace) (now : Span) : Prop :=
  pace.clock.horizon.nanos < now.nanos + pace.timeout.nanos

instance (pace : Pace) (now : Span) : Decidable (pace.Overruns now) := inferInstanceAs (Decidable (_ < _))

end Pace

/-- What stands still while an operation runs: the platform's behaviour, and as whom and in which
process environment it is asked. -/
structure Session (σ : Type) where
  api : Api σ
  environment : Environment
  credentials : Credentials

/-- What an operation works on: the handle, the platform, and the clock. -/
structure Situation (σ : Type) where
  service : Service
  platform : σ
  clock : Span

namespace Situation

variable {σ : Type}

def update (x : Situation σ) (f : Service → Service) : Situation σ :=
  { x with service := f x.service }

def later (x : Situation σ) (nanos : Nat) : Situation σ := { x with clock := ⟨x.clock.nanos + nanos⟩ }

end Situation

/-- What comes of an operation that can go wrong with an `ε`: its result and the situation after it. -/
abbrev Outcome (σ ε α : Type) := Except ε α × Situation σ

/-- The same outcome, of an operation that may panic too. -/
def Outcome.returned {σ α : Type} (o : Outcome σ Error α) : Outcome σ Failure α := (o.1.mapError .fault, o.2)

@[simp] theorem mapError_ok {α : Type} (a : α) :
    (Except.ok a : Except Error α).mapError Failure.fault = .ok a := rfl

@[simp] theorem mapError_error {α : Type} (e : Error) :
    (Except.error e : Except Error α).mapError Failure.fault = .error (.fault e) := rfl

namespace Session

variable {σ : Type}

/-- A request about the endpoint of a handle, in its namespace. -/
def request (s : Session σ) (h : Service) (clock : Span) (call : Call) : Request :=
  ⟨clock, s.environment, s.credentials, h.owner s.credentials, call⟩

/-- What the platform answers to it, and the platform after that. -/
def reply (s : Session σ) (h : Service) (clock : Span) (call : Call) (platform : σ) :
    Except Error call.Answer × σ :=
  s.api.answer (s.request h clock call) platform

def ask (s : Session σ) (call : Call) (x : Situation σ) : Outcome σ Error call.Answer :=
  let (answer, platform) := s.reply x.service x.clock call x.platform
  (answer, { x with platform })

/-- Looks at the endpoint; a missing one is an error. -/
def poll (s : Session σ) (x : Situation σ) : Outcome σ Error Endpoint.Info :=
  match s.ask (.get x.service.endpointName) x with
  | (.error e, y) => (.error e, y)
  | (.ok none, y) => (.error (.notFound x.service.endpointName), y)
  | (.ok (some info), y) => (.ok info, y.update (·.seen info))

/-- Polls until a state is reached, the endpoint fails or the deadline has passed. The last poll
falls on the deadline. -/
def waitFor (s : Session σ) (pace : Pace) (reached : Endpoint.State → Bool) (deadline : Nat)
    (patience : Nat) (x : Situation σ) : Outcome σ Error Unit :=
  match s.poll x with
  | (.error e, y) => (.error e, y)
  | (.ok info, y) =>
    if reached info.status.state then (.ok (), y)
    else if info.status.state.isFailed then
      (.error (.endpointFailed x.service.endpointName (info.status.message.getD "")), y)
    else if deadline ≤ x.clock.nanos then (.error (.timeout x.service.endpointName pace.timeout), y)
    else if pace.interval.nanos = 0 then
      match patience with
      | 0 => (.error (.timeout x.service.endpointName pace.timeout), y)
      | patience + 1 => waitFor s pace reached deadline patience { y with clock := x.clock }
    else
      waitFor s pace reached deadline patience
        ({ y with clock := x.clock }.later (min pace.interval.nanos (deadline - x.clock.nanos)))
termination_by (deadline - x.clock.nanos, patience)
decreasing_by
  · exact Prod.Lex.right _ (by omega)
  · refine Prod.Lex.left _ _ ?_
    simp only [Situation.later]
    omega

/-- Waits from now on for a state. A timeout of zero does not wait at all, and with one that overruns the clock there
is a panic before the first poll. -/
def await (s : Session σ) (pace : Pace) (reached : Endpoint.State → Bool) (x : Situation σ) :
    Outcome σ Failure Unit :=
  if pace.timeout.nanos = 0 then (.ok (), x)
  else if pace.Overruns x.clock then (.error (.panic .untellable), x)
  else (s.waitFor pace reached (x.clock.nanos + pace.timeout.nanos) pace.clock.patience x).returned

/-- Brings the endpoint up: a missing one is created, a paused one resumed. -/
def provision (s : Session σ) (x : Situation σ) : Outcome σ Error Endpoint.Info :=
  match s.ask (.get x.service.endpointName) x with
  | (.error e, y) => (.error e, y)
  | (.ok none, y) => s.ask (.create (.ofConfig x.service.config)) y
  | (.ok (some info), y) =>
    if info.status.state = .paused then s.ask (.resume x.service.endpointName) y else (.ok info, y)

/-- Starts the endpoint and waits until it can serve. -/
def start (s : Session σ) (pace : Pace) (x : Situation σ) : Outcome σ Failure Unit :=
  match s.provision (x.update (·.inState .pendingStartup)) with
  | (.error e, y) => (.error (.fault e), y)
  | (.ok info, y) => s.await pace Endpoint.State.isReady (y.update (·.seen info))

/-- Pauses the endpoint and waits until it is paused. -/
def pause (s : Session σ) (pace : Pace) (x : Situation σ) : Outcome σ Failure Unit :=
  match s.ask (.pause x.service.endpointName) x with
  | (.error e, y) => (.error (.fault e), y)
  | (.ok info, y) =>
    let y := y.update (·.seen info)
    if info.status.state = .paused then (.ok (), y) else s.await pace (· == .paused) y

/-- Stops the endpoint. With `force` the handle is inactive afterwards whatever the platform says; a panic is not held
up by it. -/
def stop (s : Session σ) (pace : Pace) (force : Bool) (x : Situation σ) : Outcome σ Failure Unit :=
  match s.pause pace (x.update (·.inState .pendingShutdown)) with
  | (.ok (), y) => (.ok (), y.update (·.inState .inactive))
  | (.error (.fault e), y) =>
    if force then (.ok (), y.update (·.inState .inactive))
    else (.error (.fault e), y.update (·.afterFailure e.message))
  | (.error (.panic p), y) => (.error (.panic p), y)

/-- Deletes the endpoint. It may be missing already. -/
def release (s : Session σ) (force : Bool) (x : Situation σ) : Outcome σ Error Unit :=
  match s.ask (.delete x.service.endpointName) x with
  | (.ok (), y) => (.ok (), y.update (·.released))
  | (.error (.notFound _), y) => (.ok (), y.update (·.released))
  | (.error e, y) => if force then (.ok (), y.update (·.released)) else (.error e, y)

/-- Stops the endpoint and then deletes it. An endpoint that is missing need not be stopped. -/
def delete (s : Session σ) (pace : Pace) (force : Bool) (x : Situation σ) : Outcome σ Failure Unit :=
  match s.stop pace force x with
  | (.ok (), y) => (s.release force y).returned
  | (.error (.fault (.notFound _)), y) =>
    (s.release force (y.update fun h => { h with status.lastError := none })).returned
  | (.error f, y) => (.error f, y)

end Session

end Deployment

end ModelDepot
