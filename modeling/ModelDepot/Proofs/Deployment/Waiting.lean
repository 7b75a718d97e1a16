import ModelDepot.Proofs.Deployment.Requests

/-! # Waiting for an endpoint

A wait polls at every interval and once more at its deadline. The first poll that decides it ends it;
if none does, the poll at the deadline does.
-/

namespace ModelDepot

namespace Deployment

/-! ## The polls of a wait -/

/-- A wait for the endpoint of a handle, with the requests that the same operation sent before it to a
platform. -/
structure Wait (σ : Type) where
  session : Session σ
  pace : Pace
  service : Service
  began : Span
  platform : σ
  opening : List Request

namespace Wait

variable {σ : Type} (w : Wait σ)

/-- The time of the `k`-th poll, counted from zero. -/
def time (k : Nat) : Span := ⟨w.began.nanos + min (k * w.pace.interval.nanos) w.pace.timeout.nanos⟩

def poll (k : Nat) : Request := w.session.request w.service (w.time k) (.get w.service.endpointName)

def polls (n : Nat) : List Request := (List.range n).map w.poll

def answer (k : Nat) : Except Error (Option Endpoint.Info) :=
  w.session.answerAfter (w.opening ++ w.polls k) w.service (w.time k) (.get w.service.endpointName) w.platform

/-- The most polls that a wait can have after its first: the intervals in the timeout, the last one
perhaps cut short. -/
def intervals : Nat := (w.pace.timeout.nanos + w.pace.interval.nanos - 1) / w.pace.interval.nanos

variable (reached : Endpoint.State → Bool)

/-- The `k`-th poll leaves the wait open, and so does the time. -/
def Open (k : Nat) : Prop :=
  k * w.pace.interval.nanos < w.pace.timeout.nanos ∧
    ∃ info, w.answer k = .ok (some info) ∧ reached info.status.state = false ∧
      info.status.state.isFailed = false

/-- What the `n`-th poll makes of a wait that it ends. -/
def Decides (n : Nat) (result : Except Error Unit) (h : Service) : Prop :=
  match w.answer n with
  | .error e => result = .error e
  | .ok none => result = .error (.notFound w.service.endpointName)
  | .ok (some info) =>
    (∃ g : Service, h = g.seen info) ∧
      if reached info.status.state then result = .ok ()
      else if info.status.state.isFailed then
        result = .error (.endpointFailed w.service.endpointName (info.status.message.getD ""))
      else
        w.pace.timeout.nanos ≤ n * w.pace.interval.nanos ∧
          result = .error (.timeout w.service.endpointName w.pace.timeout)

/-- The wait ends with its `n`-th poll. -/
structure Ends (n : Nat) (result : Except Error Unit) (h : Service) : Prop where
  before : ∀ k < n, w.Open reached k
  decides : w.Decides reached n result h
  few : n ≤ w.intervals

/-- The situation in which `n` polls have been made, the next one being due at the time given. -/
def after (n : Nat) (h : Service) (clock : Span) : Situation (σ × List Request) :=
  w.session.having w.platform (w.opening ++ w.polls n) h clock

variable {w} {reached}

end Wait

namespace Session

variable {σ : Type} {s : Session σ} {x : Situation σ} {pace : Pace} {reached : Endpoint.State → Bool}

theorem await_of_tellable (time : pace.timeout.nanos ≠ 0) (tellable : ¬ pace.Overruns x.clock) :
    s.await pace reached x =
      (s.waitFor pace reached (x.clock.nanos + pace.timeout.nanos) pace.clock.patience x).returned :=
  (if_neg time).trans (if_neg tellable)

end Session

end Deployment

end ModelDepot
