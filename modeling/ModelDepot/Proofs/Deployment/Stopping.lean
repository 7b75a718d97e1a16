import ModelDepot.Proofs.Deployment.Starting

/-! # Stopping an endpoint

A stop asks for a pause and then polls until the endpoint is paused, unless it is so already or there is no
time to wait. All it does is told by the answers of the platform: it succeeds if nothing was in the way of the
pause, and else the first thing that was is its error. What force does not help against is a deadline that the clock
cannot tell.
-/

namespace ModelDepot

namespace Deployment

namespace Session

variable {σ : Type} (s : Session σ) (x : Situation σ) (pace : Pace)

/-! ## Pausing -/

def pausing : Request := s.request x.service x.clock (.pause x.service.endpointName)

def paused : Except Error Endpoint.Info :=
  s.answerAfter [] x.service x.clock (.pause x.service.endpointName) x.platform

def stopWait : Wait σ := ⟨s, pace, x.service, x.clock, x.platform, [s.pausing x]⟩

/-- The request for the pause is accepted, and the endpoint is to be waited for, but longer than the clock can tell. -/
def Overruns : Prop :=
  ∃ info, s.paused x = .ok info ∧ info.status.state ≠ .paused ∧ pace.timeout.nanos ≠ 0 ∧ pace.Overruns x.clock

/-- How a pause goes: the number of its polls, and what comes of it. -/
inductive Pauses : Nat → Except Failure Unit → Prop where
  | refused (e : Error) (answer : s.paused x = .error e) : Pauses 0 (.error (.fault e))
  | atOnce (info : Endpoint.Info) (answer : s.paused x = .ok info)
      (settled : pace.timeout.nanos = 0 ∨ info.status.state = .paused) : Pauses 0 (.ok ())
  | overruns (overrun : s.Overruns x pace) : Pauses 0 (.error (.panic .untellable))
  | waits (info : Endpoint.Info) (answer : s.paused x = .ok info) (time : pace.timeout.nanos ≠ 0)
      (running : info.status.state ≠ .paused) (tellable : ¬ pace.Overruns x.clock) (n : Nat)
      (result : Except Error Unit) (h : Service) (ends : (s.stopWait x pace).Ends (· == .paused) n result h)
      (failure : Except Failure Unit) (returned : failure = result.mapError .fault) : Pauses (n + 1) failure

end Session

/-! ## What decides a stop -/

namespace Wait

variable {σ : Type} (w : Wait σ)

/-- What the `k`-th poll puts in the way of a wait: an error, or that the endpoint is missing or has failed. -/
def obstacle? (k : Nat) : Option Error :=
  match w.answer k with
  | .error e => some e
  | .ok none => some (.notFound w.service.endpointName)
  | .ok (some info) =>
    if info.status.state.isFailed then
      some (.endpointFailed w.service.endpointName (info.status.message.getD ""))
    else none

def PausedAt (k : Nat) : Prop := ∃ info, w.answer k = .ok (some info) ∧ info.status.state = .paused

/-- The `k`-th poll tells nothing that a wait for a pause could end with. -/
def Silent (k : Nat) : Prop := w.obstacle? k = none ∧ ¬ w.PausedAt k

instance (k : Nat) : Decidable (w.PausedAt k) :=
  match answer : w.answer k with
  | .ok (some info) => decidable_of_iff (info.status.state = .paused) (by simp [PausedAt, answer])
  | .ok none => isFalse (by simp [PausedAt, answer])
  | .error _ => isFalse (by simp [PausedAt, answer])

instance (k : Nat) : Decidable (w.Silent k) := inferInstanceAs (Decidable (_ ∧ _))

variable {w} {k n : Nat}

theorem Open.silent (opened : w.Open (· == .paused) k) : w.Silent k := by
  obtain ⟨-, info, answer, running, fine⟩ := opened
  refine ⟨by simp [obstacle?, answer, fine], ?_⟩
  rintro ⟨info', answer', paused⟩
  obtain rfl : info' = info := by simpa using answer'.symm.trans answer
  simp [paused] at running

theorem Decides.cases {result : Except Error Unit} {h : Service} (decides : w.Decides (· == .paused) n result h) :
    (result = .ok () ∧ w.PausedAt n) ∨ (∃ e, w.obstacle? n = some e ∧ result = .error e) ∨
      (w.Silent n ∧ w.pace.timeout.nanos ≤ n * w.pace.interval.nanos ∧
        result = .error (.timeout w.service.endpointName w.pace.timeout)) := by
  unfold Decides at decides
  rcases answer : w.answer n with e | _ | info
  · rw [answer] at decides
    exact .inr (.inl ⟨e, by simp [obstacle?, answer], decides⟩)
  · rw [answer] at decides
    exact .inr (.inl ⟨_, by simp [obstacle?, answer], decides⟩)
  · rw [answer] at decides
    obtain ⟨-, decided⟩ := decides
    by_cases paused : info.status.state = .paused
    · rw [if_pos (by simpa using paused)] at decided
      exact .inl ⟨decided, info, answer, paused⟩
    · rw [if_neg (by simpa using paused)] at decided
      by_cases failed : info.status.state.isFailed
      · rw [if_pos failed] at decided
        exact .inr (.inl ⟨_, by simp [obstacle?, answer, failed], decided⟩)
      · rw [if_neg failed] at decided
        refine .inr (.inr ⟨⟨by simp [obstacle?, answer, failed], ?_⟩, decided⟩)
        rintro ⟨info', answer', paused'⟩
        obtain rfl : info' = info := by simpa using answer'.symm.trans answer
        exact paused paused'

/-- The poll at the deadline is the last that a wait can have. -/
theorem intervals_le (moves : 0 < w.pace.interval.nanos)
    (late : w.pace.timeout.nanos ≤ n * w.pace.interval.nanos) : w.intervals ≤ n := by
  rw [intervals, ← Nat.lt_add_one_iff, Nat.div_lt_iff_lt_mul moves, Nat.succ_mul]
  omega

end Wait

namespace Session

variable {σ : Type} (s : Session σ) (x : Situation σ) (pace : Pace)

/-- What is first in the way of a pause: the answer to the request for it, what a poll in time tells, or that the
time is over. -/
inductive Hinders : Error → Prop where
  | refused (e : Error) (answer : s.paused x = .error e) : Hinders e
  | obstructed (info : Endpoint.Info) (answer : s.paused x = .ok info) (time : pace.timeout.nanos ≠ 0)
      (running : info.status.state ≠ .paused) (n : Nat) (inTime : n ≤ (s.stopWait x pace).intervals) (e : Error)
      (obstacle : (s.stopWait x pace).obstacle? n = some e) (before : ∀ k < n, (s.stopWait x pace).Silent k) :
      Hinders e
  | late (info : Endpoint.Info) (answer : s.paused x = .ok info) (time : pace.timeout.nanos ≠ 0)
      (running : info.status.state ≠ .paused)
      (silent : ∀ k ≤ (s.stopWait x pace).intervals, (s.stopWait x pace).Silent k) :
      Hinders (.timeout x.service.endpointName pace.timeout)

variable {s x pace}

theorem Pauses.hinders (moves : 0 < pace.interval.nanos) {n : Nat} {e : Error}
    (pauses : s.Pauses x pace n (.error (.fault e))) : s.Hinders x pace e := by
  cases pauses with
  | refused e answer => exact .refused e answer
  | waits info answer time running tellable n result h ends failure returned =>
    have before : ∀ k < n, (s.stopWait x pace).Silent k := fun k hk => (ends.before k hk).silent
    obtain ⟨done, -⟩ | ⟨e', obstacle, failed⟩ | ⟨silent, overdue, failed⟩ := ends.decides.cases
    · simp [done] at returned
    · obtain rfl : e = e' := by simpa [failed] using returned
      exact .obstructed info answer time running n ends.few e obstacle before
    · obtain rfl : e = _ := by simpa [failed] using returned
      refine .late info answer time running fun k hk => ?_
      -- The poll that ended the wait is the one at the deadline, so no other can follow.
      have last : k ≤ n := Nat.le_trans hk (Wait.intervals_le moves overdue)
      obtain rfl | earlier := Nat.eq_or_lt_of_le last
      · exact silent
      · exact before k earlier

theorem Hinders.unique {e e' : Error} (hinders : s.Hinders x pace e) (hinders' : s.Hinders x pace e') : e' = e := by
  cases hinders with
  | refused e answer =>
    cases hinders' with
    | refused e' answer' => simpa using answer'.symm.trans answer
    | obstructed info answer' => simp [answer] at answer'
    | late info answer' => simp [answer] at answer'
  | obstructed info answer time running n inTime e obstacle before =>
    cases hinders' with
    | refused e' answer' => simp [answer] at answer'
    | obstructed info' answer' time' running' n' inTime' e' obstacle' before' =>
      obtain earlier | rfl | later := Nat.lt_trichotomy n n'
      · simp [(before' n earlier).1] at obstacle
      · simpa using obstacle'.symm.trans obstacle
      · simp [(before n' later).1] at obstacle'
    | late info' answer' time' running' silent => simp [(silent n inTime).1] at obstacle
  | late info answer time running silent =>
    cases hinders' with
    | refused e' answer' => simp [answer] at answer'
    | obstructed info' answer' time' running' n inTime e' obstacle => simp [(silent n inTime).1] at obstacle
    | late => rfl

variable (s x pace)

end Session

end Deployment

end ModelDepot
