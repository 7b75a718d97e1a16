import ModelDepot.Proofs.Deployment.Waiting

/-! # Starting an endpoint

A start asks for the endpoint once, creates or resumes it if need be, and then waits. Everything it
does is told by the answers of the platform.
-/

namespace ModelDepot

namespace Deployment

namespace Session

variable {σ : Type} (s : Session σ) (x : Situation σ)

/-! ## Bringing the endpoint up -/

/-- The request for the endpoint that every start begins with. -/
def lookup : Request := s.request x.service x.clock (.get x.service.endpointName)

def found : Except Error (Option Endpoint.Info) :=
  s.answerAfter [] x.service x.clock (.get x.service.endpointName) x.platform

/-- How the endpoint is brought up: the requests, and the answer that counts. A missing endpoint is
created and a paused one resumed; nothing is done about any other. -/
inductive Provides : List Request → Except Error Endpoint.Info → Prop where
  | unanswered (e : Error) (found : s.found x = .error e) : Provides [s.lookup x] (.error e)
  | creates (found : s.found x = .ok none) :
      Provides [s.lookup x, s.request x.service x.clock (.create (.ofConfig x.service.config))]
        (s.answerAfter [s.lookup x] x.service x.clock (.create (.ofConfig x.service.config)) x.platform)
  | resumes (info : Endpoint.Info) (found : s.found x = .ok (some info))
      (paused : info.status.state = .paused) :
      Provides [s.lookup x, s.request x.service x.clock (.resume x.service.endpointName)]
        (s.answerAfter [s.lookup x] x.service x.clock (.resume x.service.endpointName) x.platform)
  | finds (info : Endpoint.Info) (found : s.found x = .ok (some info))
      (up : info.status.state ≠ .paused) : Provides [s.lookup x] (.ok info)

theorem provision_provides (h : Service) (same : x.service.SameDeployment h) :
    ∃ opening brought, (s.noting id).provision (s.having x.platform [] h x.clock) =
        (brought, s.having x.platform opening h x.clock) ∧ s.Provides x opening brought := by
  have asked : (s.noting id).ask (.get x.service.endpointName) (s.having x.platform [] h x.clock) =
      (s.found x, s.having x.platform [s.lookup x] h x.clock) := by
    rw [ask_having, s.answerAfter_of_same same, s.request_of_same same]
    rfl
  have name : (s.having x.platform [] h x.clock).service.endpointName = x.service.endpointName :=
    same.endpointName
  unfold provision
  rw [name, asked]
  match hf : s.found x with
  | .error e => exact ⟨_, _, rfl, .unanswered e hf⟩
  | .ok none =>
    refine ⟨_, _, ?_, .creates hf⟩
    simp only
    rw [show (s.having x.platform [] h x.clock).service.config = x.service.config from same.config,
      ask_having, s.answerAfter_of_same same, s.request_of_same same]
    rfl
  | .ok (some info) =>
    by_cases paused : info.status.state = .paused
    · refine ⟨_, _, (if_pos paused).trans ?_, .resumes info hf paused⟩
      rw [ask_having, s.answerAfter_of_same same, s.request_of_same same]
      rfl
    · exact ⟨_, _, if_neg paused, .finds info hf paused⟩

theorem Provides.lookup_mem {s : Session σ} {x : Situation σ} {opening : List Request}
    {brought : Except Error Endpoint.Info} (provides : s.Provides x opening brought) : s.lookup x ∈ opening := by
  cases provides <;> simp

/-! ## The whole start -/

theorem start_asks (pace : Pace) : s.lookup x ∈ s.requests (·.start pace) x := by
  have begun : x.service.SameDeployment (x.service.inState .pendingStartup) :=
    (Service.SameDeployment.refl _).withStatus _
  obtain ⟨opening, brought, provided, provides⟩ := s.provision_provides x _ begun
  have update : (s.having x.platform [] x.service x.clock).update (·.inState .pendingStartup) =
      s.having x.platform [] (x.service.inState .pendingStartup) x.clock := rfl
  change s.lookup x ∈ ((s.noting id).start pace (s.having x.platform [] x.service x.clock)).2.platform.2
  rw [start, update, provided]
  cases brought with
  | error e => exact provides.lookup_mem
  | ok info =>
    -- What was asked stays asked while the start waits.
    have agree : Agree (s.noting id) (s.noting id) x.service fun a b => a = b ∧ s.lookup x ∈ a.2 := by
      rintro clock call a b - ⟨rfl, asked⟩
      exact ⟨rfl, rfl, List.mem_append_left _ asked⟩
    have along := begun.withStatus ((x.service.inState .pendingStartup).seen info).status
    exact (agree.await pace Endpoint.State.isReady
      ⟨rfl, rfl, ⟨rfl, provides.lookup_mem⟩, along⟩).2.platform.2

end Session

/-- A platform whose endpoints serve as soon as one was created; its state tells whether one was. -/
def Api.prompt : Api Bool where
  answer r created :=
    match r.call with
    | .get name => (.ok (if created then some ⟨name, .running, none, none⟩ else none), created)
    | .create request => (.ok ⟨request.name, .running, none, none⟩, true)
    | .pause name => (.ok ⟨name, .paused, none, none⟩, created)
    | .resume name => (.ok ⟨name, .running, none, none⟩, created)
    | .delete _ => (.ok (), false)

def Session.prompt : Session Bool :=
  ⟨.prompt, .cleared, ⟨"token", "owner", by decide, by decide⟩⟩

/-- The identity whose digits are all zero. -/
def zeroUuid : Uuid := ⟨List.replicate 32 ⟨0, by decide⟩, by decide⟩

/-- The handle of a new endpoint, on this platform. -/
def Situation.fresh : Situation Bool where
  service := .new zeroUuid (.new "zenml-model" "repository") ⟨0, 0⟩
  platform := false
  clock := ⟨0⟩

end Deployment

end ModelDepot
