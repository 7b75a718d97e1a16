import ModelDepot.Deployment.Lifecycle

/-! # What all operations of a session have in common

An operation asks about the endpoint of its handle only, and of the handle it changes the status only.
So two platforms that answer the requests about that endpoint alike see every operation run alike. Taken
for one platform and itself, this is the invariant of a single run.
-/

namespace ModelDepot

namespace Deployment

/-! ## One deployment -/

/-- Two handles of one deployment: they differ at most in what was last seen. -/
structure Service.SameDeployment (h h' : Service) : Prop where
  model : h'.model = h.model
  config : h'.config = h.config
  createdAt : h'.createdAt = h.createdAt

namespace Service.SameDeployment

variable {h h' : Service}

theorem refl (h : Service) : SameDeployment h h := ⟨rfl, rfl, rfl⟩

theorem endpointName (same : SameDeployment h h') : h'.endpointName = h.endpointName := by
  rw [Service.endpointName, same.config, Service.endpointName]

theorem owner (same : SameDeployment h h') (c : Credentials) : h'.owner c = h.owner c := by
  rw [Service.owner, same.config, Service.owner]

theorem withStatus (same : SameDeployment h h') (status : Status) :
    SameDeployment h { h' with status := status } := ⟨same.model, same.config, same.createdAt⟩

end Service.SameDeployment

namespace Session

variable {σ τ ε α : Type}

theorem request_of_same (s : Session σ) {h h' : Service} (same : h.SameDeployment h') :
    s.request h' = s.request h := by
  funext clock call
  rw [request, request, same.owner]

theorem reply_of_same (s : Session σ) {h h' : Service} (same : h.SameDeployment h') :
    s.reply h' = s.reply h := by
  funext clock call platform
  unfold reply request
  rw [same.owner]

/-! ## Platforms that answer alike -/

/-- The platforms of two sessions answer the requests about the endpoint of a handle alike, and stay in
a relation by it. -/
def Agree (s : Session σ) (t : Session τ) (h : Service) (R : σ → τ → Prop) : Prop :=
  ∀ clock call a b, call.endpoint = h.endpointName → R a b →
    (s.reply h clock call a).1 = (t.reply h clock call b).1 ∧
      R (s.reply h clock call a).2 (t.reply h clock call b).2

/-- Two situations in the life of one deployment that differ only in their platforms, which are in a
relation. -/
structure Along (h : Service) (R : σ → τ → Prop) (x : Situation σ) (y : Situation τ) : Prop where
  service : x.service = y.service
  clock : x.clock = y.clock
  platform : R x.platform y.platform
  same : h.SameDeployment x.service

/-- Two outcomes with one result and such situations. -/
def Alike (h : Service) (R : σ → τ → Prop) (o : Outcome σ ε α) (p : Outcome τ ε α) : Prop :=
  o.1 = p.1 ∧ Along h R o.2 p.2

variable {s : Session σ} {t : Session τ} {h : Service} {R : σ → τ → Prop}
variable {x : Situation σ} {y : Situation τ}

theorem Along.update (along : Along h R x y) (f : Service → Service)
    (keeps : ∀ g, h.SameDeployment g → h.SameDeployment (f g)) :
    Along h R (x.update f) (y.update f) where
  service := congrArg f along.service
  clock := along.clock
  platform := along.platform
  same := keeps _ along.same

theorem Along.atTime (along : Along h R x y) (clock : Span) :
    Along h R { x with clock } { y with clock } := ⟨along.service, rfl, along.platform, along.same⟩

theorem Along.endpoint_eq (along : Along h R x y) :
    y.service.endpointName = x.service.endpointName := by rw [along.service]

/-! ## The operations -/

theorem Agree.ask (agree : Agree s t h R) (along : Along h R x y) (call : Call)
    (named : call.endpoint = h.endpointName) : Alike h R (s.ask call x) (t.ask call y) := by
  obtain ⟨answer, platform⟩ := agree x.clock call x.platform y.platform named along.platform
  unfold Session.ask
  rw [← along.service, ← along.clock, s.reply_of_same along.same, t.reply_of_same along.same]
  exact ⟨answer, rfl, rfl, platform, along.same⟩

theorem Alike.exists {o : Outcome σ ε α} {p : Outcome τ ε α} (alike : Alike h R o p) :
    ∃ a x' y', o = (a, x') ∧ p = (a, y') ∧ Along h R x' y' := by
  obtain ⟨a, x'⟩ := o
  obtain ⟨b, y'⟩ := p
  obtain ⟨rfl, after⟩ := alike
  exact ⟨a, x', y', rfl, rfl, after⟩

theorem Alike.of_eq {o : Outcome σ ε α} {p : Outcome τ ε α} (alike : Alike h R o p) {a : Except ε α}
    {x' : Situation σ} (ho : o = (a, x')) : ∃ y', p = (a, y') ∧ Along h R x' y' := by
  obtain ⟨b, z', y', hz, hp, after⟩ := alike.exists
  obtain ⟨rfl, rfl⟩ := Prod.mk.inj (ho.symm.trans hz)
  exact ⟨y', hp, after⟩

theorem Alike.returned {o : Outcome σ Error α} {p : Outcome τ Error α} (alike : Alike h R o p) :
    Alike h R o.returned p.returned := ⟨congrArg (Except.mapError Failure.fault) alike.1, alike.2⟩

theorem Agree.poll (agree : Agree s t h R) (along : Along h R x y) :
    Alike h R (s.poll x) (t.poll y) := by
  obtain ⟨a, x', y', hs, ht, after⟩ :=
    (agree.ask along (.get x.service.endpointName) along.same.endpointName).exists
  unfold Session.poll
  rw [along.endpoint_eq, hs, ht]
  match a with
  | .error e => exact ⟨rfl, after⟩
  | .ok none => exact ⟨rfl, after⟩
  | .ok (some info) => exact ⟨rfl, after.update (·.seen info) fun _ same => same.withStatus _⟩

theorem Agree.waitFor (agree : Agree s t h R) (pace : Pace) (reached : Endpoint.State → Bool)
    (deadline patience : Nat) (along : Along h R x y) :
    Alike h R (s.waitFor pace reached deadline patience x) (t.waitFor pace reached deadline patience y) := by
  fun_induction s.waitFor pace reached deadline patience x generalizing y with
  | case1 patience x e x' hs =>
    obtain ⟨y', ht, after⟩ := (agree.poll along).of_eq hs
    rw [Session.waitFor, ht]
    exact ⟨rfl, after⟩
  | case2 patience x info x' hs there =>
    obtain ⟨y', ht, after⟩ := (agree.poll along).of_eq hs
    rw [Session.waitFor, ht]
    simp only [there, if_true]
    exact ⟨rfl, after⟩
  | case3 patience x info x' hs there failed =>
    obtain ⟨y', ht, after⟩ := (agree.poll along).of_eq hs
    rw [Session.waitFor, ht, along.endpoint_eq]
    simp only [there, failed, if_true]
    exact ⟨rfl, after⟩
  | case4 patience x info x' hs there failed late =>
    obtain ⟨y', ht, after⟩ := (agree.poll along).of_eq hs
    rw [Session.waitFor, ht, along.endpoint_eq, ← along.clock]
    simp only [there, failed, late, if_true]
    exact ⟨rfl, after⟩
  | case5 x info x' hs there failed early still =>
    obtain ⟨y', ht, after⟩ := (agree.poll along).of_eq hs
    rw [Session.waitFor, ht, along.endpoint_eq, ← along.clock]
    simp only [there, failed, early, still, if_true, if_false]
    exact ⟨rfl, after⟩
  | case6 x info x' hs there failed early still patience ih =>
    obtain ⟨y', ht, after⟩ := (agree.poll along).of_eq hs
    rw [Session.waitFor.eq_def t, ht, ← along.clock]
    simp only [there, failed, early, still, if_true, if_false]
    exact ih (after.atTime _)
  | case7 patience x info x' hs there failed early moving ih =>
    obtain ⟨y', ht, after⟩ := (agree.poll along).of_eq hs
    rw [Session.waitFor.eq_def t, ht, ← along.clock]
    simp only [there, failed, early, moving, if_false]
    exact ih (after.atTime _)

theorem Agree.await (agree : Agree s t h R) (pace : Pace) (reached : Endpoint.State → Bool)
    (along : Along h R x y) : Alike h R (s.await pace reached x) (t.await pace reached y) := by
  unfold Session.await
  rw [← along.clock]
  split
  · exact ⟨rfl, along⟩
  split
  · exact ⟨rfl, along⟩
  · exact (agree.waitFor pace reached _ _ along).returned

theorem Agree.provision (agree : Agree s t h R) (along : Along h R x y) :
    Alike h R (s.provision x) (t.provision y) := by
  obtain ⟨a, x', y', hs, ht, after⟩ :=
    (agree.ask along (.get x.service.endpointName) along.same.endpointName).exists
  unfold Session.provision
  rw [along.endpoint_eq, hs, ht]
  match a with
  | .error e => exact ⟨rfl, after⟩
  | .ok none =>
    rw [← along.service]
    exact agree.ask after (.create (.ofConfig x.service.config)) along.same.endpointName
  | .ok (some info) =>
    by_cases paused : info.status.state = .paused
    · simp only [paused]
      exact agree.ask after (.resume x.service.endpointName) along.same.endpointName
    · simp only [paused]
      exact ⟨rfl, after⟩

theorem Agree.start (agree : Agree s t h R) (pace : Pace) (along : Along h R x y) :
    Alike h R (s.start pace x) (t.start pace y) := by
  have begun := along.update (·.inState .pendingStartup) fun _ same => same.withStatus _
  obtain ⟨a, x', y', hs, ht, after⟩ := (agree.provision begun).exists
  unfold Session.start
  rw [hs, ht]
  match a with
  | .error e => exact ⟨rfl, after⟩
  | .ok info => exact agree.await pace _ (after.update (·.seen info) fun _ same => same.withStatus _)

theorem Agree.pause (agree : Agree s t h R) (pace : Pace) (along : Along h R x y) :
    Alike h R (s.pause pace x) (t.pause pace y) := by
  obtain ⟨a, x', y', hs, ht, after⟩ :=
    (agree.ask along (.pause x.service.endpointName) along.same.endpointName).exists
  unfold Session.pause
  rw [along.endpoint_eq, hs, ht]
  match a with
  | .error e => exact ⟨rfl, after⟩
  | .ok info =>
    have seen := after.update (·.seen info) fun _ same => same.withStatus _
    simp only
    split
    · exact ⟨rfl, seen⟩
    · exact agree.await pace _ seen

theorem Agree.stop (agree : Agree s t h R) (pace : Pace) (force : Bool) (along : Along h R x y) :
    Alike h R (s.stop pace force x) (t.stop pace force y) := by
  have begun := along.update (·.inState .pendingShutdown) fun _ same => same.withStatus _
  obtain ⟨a, x', y', hs, ht, after⟩ := (agree.pause pace begun).exists
  unfold Session.stop
  rw [hs, ht]
  have idle := after.update (·.inState .inactive) fun _ same => same.withStatus _
  match a with
  | .ok () => exact ⟨rfl, idle⟩
  | .error (.fault e) =>
    cases force
    · exact ⟨rfl, after.update (·.afterFailure e.message) fun _ same => same.withStatus _⟩
    · exact ⟨rfl, idle⟩
  | .error (.panic p) => exact ⟨rfl, after⟩

theorem Agree.release (agree : Agree s t h R) (force : Bool) (along : Along h R x y) :
    Alike h R (s.release force x) (t.release force y) := by
  obtain ⟨a, x', y', hs, ht, after⟩ :=
    (agree.ask along (.delete x.service.endpointName) along.same.endpointName).exists
  unfold Session.release
  rw [along.endpoint_eq, hs, ht]
  have gone := after.update (·.released) fun _ same => same.withStatus _
  match a with
  | .ok () => exact ⟨rfl, gone⟩
  | .error e =>
    cases e with
    | notFound endpoint => exact ⟨rfl, gone⟩
    | _ =>
      cases force
      · exact ⟨rfl, after⟩
      · exact ⟨rfl, gone⟩

theorem Agree.delete (agree : Agree s t h R) (pace : Pace) (force : Bool) (along : Along h R x y) :
    Alike h R (s.delete pace force x) (t.delete pace force y) := by
  obtain ⟨a, x', y', hs, ht, after⟩ := (agree.stop pace force along).exists
  unfold Session.delete
  rw [hs, ht]
  match a with
  | .ok () => exact (agree.release force after).returned
  | .error (.panic p) => exact ⟨rfl, after⟩
  | .error (.fault e) =>
    cases e with
    | notFound endpoint =>
      exact (agree.release force
        (after.update (fun g => { g with status.lastError := none }) fun _ same => same.withStatus _)).returned
    | _ => exact ⟨rfl, after⟩

end Session

end Deployment

end ModelDepot
