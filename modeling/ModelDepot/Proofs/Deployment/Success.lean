import ModelDepot.Artifact.Memory
import ModelDepot.Proofs.Deployment.Reports
import ModelDepot.Proofs.Deployment.Starting

/-! # What a success means

A call that succeeded leaves a handle that shows no error, if it waited for what it was told to bring about.
Without time to wait, a start takes what it is told of the endpoint as it is, a failure too.
-/

namespace ModelDepot

namespace Deployment

variable {σ ω : Type}

/-! ## What the platform said last -/

def Call.description? : (call : Call) → Except Error call.Answer → Option Endpoint.Info
  | .get _, .ok found => found
  | .create _, .ok info => some info
  | .pause _, .ok info => some info
  | .resume _, .ok info => some info
  | _, _ => none

/-- The same platform, keeping the last description that it gave before its own state. -/
def Api.recalling (api : Api σ) : Api (Option Endpoint.Info × σ) where
  answer r w :=
    let (answer, platform) := api.answer r w.2
    (answer, ((r.call.description? answer).or w.1, platform))

namespace Session

variable (s : Session σ)

def recalling : Session (Option Endpoint.Info × σ) := { s with api := s.api.recalling }

theorem agree_recalling (h : Service) : Agree s s.recalling h fun platform recalled => recalled.2 = platform := by
  intro clock call platform recalled _ same
  subst same
  exact ⟨rfl, rfl⟩

variable {s} {pace : Pace} {reached : Endpoint.State → Bool}
variable {x y : Situation (Option Endpoint.Info × σ)}

theorem ask_recalling (call : Call) {answer : Except Error call.Answer}
    (asked : s.recalling.ask call x = (answer, y)) :
    y.platform.1 = (call.description? answer).or x.platform.1 ∧ y.service = x.service := by
  obtain ⟨rfl, rfl⟩ := Prod.mk.inj asked
  exact ⟨rfl, rfl⟩

/-! ## Waits -/

/-- What a wait has come to that ended well: it was told last that the state is reached, and took it down. -/
def Arrived (reached : Endpoint.State → Bool) (y : Situation (Option Endpoint.Info × σ)) : Prop :=
  ∃ info g, y.platform.1 = some info ∧ y.service = Service.seen g info ∧ reached info.status.state

theorem poll_recalling {info : Endpoint.Info} (polled : s.recalling.poll x = (.ok info, y)) :
    y.platform.1 = some info ∧ y.service = x.service.seen info := by
  unfold poll at polled
  split at polled
  · simp at polled
  · simp at polled
  · next found y' asked =>
    obtain ⟨told, same⟩ := ask_recalling _ asked
    simp only [Prod.mk.injEq, Except.ok.injEq] at polled
    obtain ⟨rfl, rfl⟩ := polled
    exact ⟨told, congrArg (·.seen found) same⟩

theorem waitFor_arrived {deadline patience : Nat}
    (waited : s.recalling.waitFor pace reached deadline patience x = (.ok (), y)) : Arrived reached y := by
  -- A wait ends well only with a poll that tells what it waits for; its other ends are errors.
  fun_induction s.recalling.waitFor pace reached deadline patience x with
  | case2 patience x info x' polled there =>
    obtain ⟨-, rfl⟩ := Prod.mk.inj waited
    obtain ⟨told, seen⟩ := poll_recalling polled
    exact ⟨info, x.service, told, seen, there⟩
  | case6 x info x' polled there failed early still patience ih => exact ih waited
  | case7 patience x info x' polled there failed early moving ih => exact ih waited
  | _ => simp at waited

theorem eq_ok_of_returned {τ : Type} {o : Outcome τ Error Unit} {z : Situation τ} (h : o.returned = (.ok (), z)) :
    o = (.ok (), z) := by
  obtain ⟨_ | _, z'⟩ := o
  · simp [Outcome.returned] at h
  · exact Prod.ext rfl (Prod.mk.inj h).2

theorem await_arrived (waited : s.recalling.await pace reached x = (.ok (), y)) :
    pace.timeout.nanos = 0 ∧ y = x ∨ pace.timeout.nanos ≠ 0 ∧ Arrived reached y := by
  unfold await at waited
  split at waited
  · next zero => exact .inl ⟨zero, (Prod.mk.inj waited).2.symm⟩
  · next time =>
    split at waited
    · simp at waited
    · exact .inr ⟨time, waitFor_arrived (eq_ok_of_returned waited)⟩

/-! ## Starts -/

theorem provision_recalling {info : Endpoint.Info} (provided : s.recalling.provision x = (.ok info, y)) :
    y.platform.1 = some info ∧ y.service = x.service := by
  unfold provision at provided
  split at provided
  · simp at provided
  · next y' asked =>
    obtain ⟨-, same⟩ := ask_recalling _ asked
    obtain ⟨told, same'⟩ := ask_recalling _ provided
    exact ⟨told, same'.trans same⟩
  · next found y' asked =>
    obtain ⟨told, same⟩ := ask_recalling _ asked
    by_cases paused : found.status.state = .paused
    · obtain ⟨told', same'⟩ := ask_recalling _ ((if_pos paused).symm.trans provided)
      exact ⟨told', same'.trans same⟩
    · obtain ⟨done, rfl⟩ := Prod.mk.inj ((if_neg paused).symm.trans provided)
      obtain rfl := Except.ok.inj done
      exact ⟨told, same⟩

end Session

theorem Service.State.after_eq_error {s : State} (sound : s ≠ .error) (e : Endpoint.State) :
    s.after e = .error ↔ e.isFailed := by
  cases e <;> simp [after, Endpoint.State.isFailed, sound]

theorem Endpoint.State.not_isFailed_of_isReady {e : State} (ready : e.isReady) : e.isFailed = false := by
  cases e <;> simp_all [isReady, isFailed]

theorem Service.seen_ready {h : Service} {info : Endpoint.Info} (ready : info.status.state.isReady) :
    (h.seen info).status.state = .active := by
  unfold seen State.after
  cases state : info.status.state <;> simp_all [Endpoint.State.isReady]

namespace Session

variable {s : Session σ} {pace : Pace} {x y : Situation (Option Endpoint.Info × σ)}

theorem start_succeeded (started : s.recalling.start pace x = (.ok (), y)) :
    ∃ info, y.platform.1 = some info ∧ (y.service.status.state = .error ↔ info.status.state.isFailed) ∧
      (pace.timeout.nanos ≠ 0 → info.status.state.isReady) := by
  unfold start at started
  split at started
  · simp at started
  · next info y' provided =>
    obtain ⟨told, same⟩ := provision_recalling provided
    obtain ⟨zero, rfl⟩ | ⟨time, info', g, told', seen, ready⟩ := await_arrived started
    · refine ⟨info, told, ?_, fun time => absurd zero time⟩
      have seen : (y'.update (·.seen info)).service.status.state =
          Service.State.pendingStartup.after info.status.state := by
        simp only [Situation.update, same]
        rfl
      rw [seen]
      exact Service.State.after_eq_error (by simp) _
    · refine ⟨info', told', ?_, fun _ => ready⟩
      rw [seen, Service.seen_ready ready, Endpoint.State.not_isFailed_of_isReady ready]
      simp

/-! ## Stops and deletions -/

def SaidPaused (y : Situation (Option Endpoint.Info × σ)) : Prop :=
  ∃ info, y.platform.1 = some info ∧ info.status.state = .paused

theorem pause_succeeded (time : pace.timeout.nanos ≠ 0) (paused : s.recalling.pause pace x = (.ok (), y)) :
    SaidPaused y := by
  unfold pause at paused
  split at paused
  · simp at paused
  · next info y' asked =>
    obtain ⟨told, -⟩ := ask_recalling _ asked
    simp only at paused
    split at paused
    · next there =>
      obtain ⟨-, rfl⟩ := Prod.mk.inj paused
      exact ⟨info, told, there⟩
    · obtain ⟨zero, -⟩ | ⟨-, info', g, told', -, there⟩ := await_arrived paused
      · exact absurd zero time
      · exact ⟨info', told', by simpa using there⟩

theorem stop_succeeded {force : Bool} (stopped : s.recalling.stop pace force x = (.ok (), y)) :
    y.service.status.state = .inactive ∧ (force = false → pace.timeout.nanos ≠ 0 → SaidPaused y) := by
  unfold stop at stopped
  split at stopped
  · next y' paused =>
    obtain ⟨-, rfl⟩ := Prod.mk.inj stopped
    exact ⟨rfl, fun _ time => show SaidPaused y' from pause_succeeded time paused⟩
  · next e y' paused =>
    cases force
    · simp at stopped
    · obtain ⟨-, rfl⟩ := Prod.mk.inj stopped
      exact ⟨rfl, by simp⟩
  · simp at stopped

theorem release_succeeded {force : Bool} (released : s.recalling.release force x = (.ok (), y)) :
    y.service.status.state = .inactive ∧ y.platform.1 = x.platform.1 := by
  unfold release at released
  split at released
  · next y' asked =>
    obtain ⟨-, rfl⟩ := Prod.mk.inj released
    exact ⟨rfl, (ask_recalling _ asked).1⟩
  · next name y' asked =>
    obtain ⟨-, rfl⟩ := Prod.mk.inj released
    exact ⟨rfl, (ask_recalling _ asked).1⟩
  · next e y' _ asked =>
    cases force
    · simp at released
    · obtain ⟨-, rfl⟩ := Prod.mk.inj released
      exact ⟨rfl, (ask_recalling _ asked).1⟩

theorem delete_succeeded {force : Bool} (deleted : s.recalling.delete pace force x = (.ok (), y)) :
    y.service.status.state = .inactive ∧ (force = false → pace.timeout.nanos ≠ 0 →
      SaidPaused y ∨ ∃ name, (s.recalling.stop pace force x).1 = .error (.fault (.notFound name))) := by
  unfold delete at deleted
  split at deleted
  · next y' stopped =>
    obtain ⟨idle, told⟩ := release_succeeded (eq_ok_of_returned deleted)
    refine ⟨idle, fun gentle time => .inl ?_⟩
    obtain ⟨info, said, there⟩ := (stop_succeeded stopped).2 gentle time
    exact ⟨info, told.trans said, there⟩
  · next name y' stopped =>
    exact ⟨(release_succeeded (eq_ok_of_returned deleted)).1, fun _ _ => .inr ⟨name, by rw [stopped]⟩⟩
  · simp at deleted

end Session

/-! ## Calls of a deployer -/

/-- The handle that a call returns or leaves behind if it succeeded. -/
def Report.succeeded? : Report → Option Service
  | .deployed (.ok h) _ => some h
  | .operated (.ok ()) h => some h
  | _ => none

/-- The action brings an endpoint up and has no time to wait for it. -/
def Action.Hasty : Action → Prop
  | .deploy _ _ timeout _ => timeout.nanos = 0
  | .operate _ (.start timeout) => timeout.nanos = 0
  | _ => False

/-- The action has no time to wait, or it is forced. -/
def Action.Lax : Action → Prop
  | .deploy _ _ timeout _ => timeout.nanos = 0
  | .find _ => False
  | .operate _ (.start timeout) => timeout.nanos = 0
  | .operate _ (.stop timeout force) => timeout.nanos = 0 ∨ force
  | .operate _ (.delete timeout force) => timeout.nanos = 0 ∨ force

def Desk.unsaid (x : Desk ω) : Desk (Option Endpoint.Info × ω) :=
  ⟨⟨(none, x.surroundings.world), x.surroundings.environment⟩, x.held⟩

namespace Deployer

variable (d : Deployer ω)

def recalling : Deployer (Option Endpoint.Info × ω) :=
  { d with api := d.api.recalling, registry := d.registry.beside }

/-- The last description of an endpoint that the platform gives while an action is done. -/
def told (x : Desk ω) (a : Action) : Option Endpoint.Info :=
  (d.recalling.perform x.unsaid a).surroundings.world.1

/-- The action is a deletion, and its stop finds the endpoint missing. -/
def FindsMissing (x : Desk ω) : Action → Prop
  | .operate n (.delete timeout force) => ∃ version h name, x.held[n]? = some (version, h) ∧
      (d.apply (.stop timeout force) h x.surroundings).1 = .error (.fault (.notFound name))
  | _ => False

theorem alike_recalling : d.Alike d.recalling fun w recalled => recalled.2 = w where
  pace := rfl
  platform := Alike.platform_of_agree rfl fun c => (d.session c).agree_recalling
  save := by
    rintro a ⟨said, b⟩ name version payload options now rfl
    exact ⟨rfl, rfl⟩
  log := by
    rintro a ⟨said, b⟩ name version metadata rfl
    exact ⟨rfl, rfl⟩
  load := by
    rintro a ⟨said, b⟩ name version rfl
    rfl

theorem report_recalling (x : Desk ω) (a : Action) : d.recalling.report x.unsaid a = d.report x a :=
  (d.alike_recalling.perform ⟨⟨rfl, rfl⟩, rfl⟩ a).1

variable {d}

theorem apply_eq_ok {o : Operation} {h : Service} {w : Surroundings ω} (done : (d.apply o h w).1 = .ok ()) :
    ∃ c x, (∀ e, d.enter e = (.ok c, .exporting c)) ∧
      o.ask d.pace (d.session c) ⟨h, w.world, ⟨0⟩⟩ = (.ok (), x) ∧
      d.apply o h w = (.ok (), x.service, ⟨x.platform, .cleared⟩) := by
  obtain stuck | ⟨c, -, entered⟩ := d.stuck_or_enters
  · obtain ⟨f, e, failed⟩ := stuck w.environment
    simp [apply_of_stuck failed] at done
  · rw [apply_eq] at done ⊢
    unfold operate at done ⊢
    simp only [entered] at done ⊢
    exact ⟨c, _, fun _ => rfl, Prod.ext done rfl, Prod.ext done rfl⟩

theorem deploy_eq_ok {model : Uuid} {config : EndpointConfig} {timeout : Span} {moments : Moments}
    {w : Surroundings ω} {h : Service} (done : (d.deploy model config timeout moments w).result = .ok h) :
    ∃ c x y, (d.session c).start (d.pace timeout) x = (.ok (), y) ∧
      h = y.service ∧ (d.deploy model config timeout moments w).surroundings = ⟨y.platform, .cleared⟩ := by
  obtain stuck | ⟨c, -, entered⟩ := d.stuck_or_enters
  · obtain ⟨f, e, failed⟩ := stuck w.environment
    simp [deploy_of_stuck failed] at done
  · simp only [deploy, entered] at done ⊢
    generalize d.keep _ _ moments.kept w.world = kept at done ⊢
    obtain ⟨_ | _, world⟩ := kept
    · simp at done
    · simp only at done ⊢
      generalize (Situation.mk _ world ⟨0⟩ : Situation ω) = x at done ⊢
      cases started : (d.session c).start (d.pace timeout) x with
      | mk result y =>
        cases result with
        | error e => simp [started, Except.map] at done
        | ok =>
          simp only [started, Except.map, Except.ok.injEq] at done
          exact ⟨c, x, y, started, done.symm, rfl⟩

/-! ## Successes -/

variable (d)

/-- What it means that an action left a handle with success. Only one that was hasty may show an error, and it does
so if that is what was said. One that heard of a failure last was lax or found that there is nothing to delete. -/
structure Means (x : Desk ω) (a : Action) (h : Service) : Prop where
  error_iff : h.status.state = .error ↔ a.Hasty ∧ ∃ info, d.told x a = some info ∧ info.status.state.isFailed
  excused : ∀ info, d.told x a = some info → info.status.state.isFailed → a.Lax ∨ d.FindsMissing x a

variable {d} {x : Desk ω} {a : Action} {h : Service}

theorem Means.of_up (timeout : Span) {info : Endpoint.Info} (hasty : a.Hasty ↔ timeout.nanos = 0)
    (lax : timeout.nanos = 0 → a.Lax) (told : d.told x a = some info)
    (shows : h.status.state = .error ↔ info.status.state.isFailed)
    (ready : timeout.nanos ≠ 0 → info.status.state.isReady) : d.Means x a h := by
  by_cases zero : timeout.nanos = 0
  · exact ⟨by simp [shows, hasty, zero, told], fun _ _ _ => .inl (lax zero)⟩
  · have fine := Endpoint.State.not_isFailed_of_isReady (ready zero)
    exact ⟨by simp [shows, hasty, zero, fine], by simp [told, fine]⟩

theorem Means.of_down (idle : h.status.state = .inactive) (calm : ¬ a.Hasty)
    (excused : ¬ a.Lax → (∃ info, d.told x a = some info ∧ info.status.state = .paused) ∨ d.FindsMissing x a) :
    d.Means x a h := by
  refine ⟨by simp [idle, calm], fun info told failed => ?_⟩
  by_cases lax : a.Lax
  · exact .inl lax
  · obtain ⟨info', told', paused⟩ | missing := excused lax
    · obtain rfl := Option.some.inj (told.symm.trans told')
      simp [paused, Endpoint.State.isFailed] at failed
    · exact .inr missing

theorem means_deploy {model : Uuid} {config : EndpointConfig} {timeout : Span} {moments : Moments}
    (done : (d.recalling.deploy model config timeout moments x.unsaid.surroundings).result = .ok h) :
    d.Means x (.deploy model config timeout moments) h := by
  obtain ⟨c, x', y, started, rfl, left⟩ := deploy_eq_ok done
  obtain ⟨info, told, shows, ready⟩ := Session.start_succeeded (s := d.session c) started
  refine .of_up timeout Iff.rfl id ?_ shows ready
  rw [Deployer.told, perform, done, left]
  exact told

theorem means_operate {n : Nat} {o : Operation} {version : String} {g : Service}
    (held : x.held[n]? = some (version, g)) (done : (d.recalling.apply o g x.unsaid.surroundings).1 = .ok ()) :
    d.Means x (.operate n o) (d.recalling.apply o g x.unsaid.surroundings).2.1 := by
  obtain ⟨c, y, entered, asked, applied⟩ := apply_eq_ok done
  have told : d.told x (.operate n o) = y.platform.1 := by
    simp only [Deployer.told, perform, Desk.unsaid, held]
    exact congrArg (·.2.2.world.1) applied
  rw [applied]
  cases o with
  | start timeout =>
    obtain ⟨info, said, shows, ready⟩ := Session.start_succeeded (s := d.session c) asked
    exact .of_up timeout Iff.rfl id (told.trans said) shows ready
  | stop timeout force =>
    obtain ⟨idle, paused⟩ := Session.stop_succeeded (s := d.session c) asked
    refine .of_down idle id fun strict => .inl ?_
    rw [told]
    obtain ⟨time, gentle⟩ := not_or.mp strict
    exact paused (by simpa using gentle) time
  | delete timeout force =>
    obtain ⟨idle, paused⟩ := Session.delete_succeeded (s := d.session c) asked
    refine .of_down idle id fun strict => ?_
    rw [told]
    obtain ⟨time, gentle⟩ := not_or.mp strict
    refine (paused (by simpa using gentle) time).imp id ?_
    rintro ⟨name, missing⟩
    -- The stop that found it missing is the same for the deployer that does not recall.
    have within : Within (fun w recalled => recalled.2 = w) x.surroundings x.unsaid.surroundings := ⟨rfl, rfl⟩
    obtain ⟨same, -⟩ := d.alike_recalling.apply (.stop timeout force) g within
    refine ⟨version, g, name, held, same.symm.trans ?_⟩
    rw [apply_eq]
    unfold operate
    rw [entered]
    exact missing

/-- **A call that succeeded shows no error**, after any run and whatever the platform answers, unless it brought
an endpoint up without time to wait for it: then it shows what it was told. And a call does not succeed if it heard
last that the endpoint failed, unless it had no time to wait, was forced, or was to delete an endpoint that it found
missing since. -/
theorem run_means (d : Deployer ω) (start : Desk ω) (before : List Action) (next : Action) (h : Service)
    (done : (d.report (d.run start before) next).succeeded? = some h) :
    d.Means (d.run start before) next h := by
  generalize d.run start before = x at done ⊢
  rw [← d.report_recalling] at done
  cases next with
  | deploy model config timeout moments =>
    simp only [report] at done
    cases deployed : (d.recalling.deploy model config timeout moments x.unsaid.surroundings).result with
    | error e => simp [deployed, Report.succeeded?] at done
    | ok g =>
      rw [deployed] at done
      obtain rfl := Option.some.inj done
      exact means_deploy deployed
  | find version => simp [report, Report.succeeded?] at done
  | operate n o =>
    simp only [report] at done
    cases held : x.held[n]? with
    | none => simp [Desk.unsaid, held, Report.succeeded?] at done
    | some kept =>
      rw [show x.unsaid.held[n]? = some kept from held] at done
      cases applied : (d.recalling.apply o kept.2 x.unsaid.surroundings).1 with
      | error e => simp [applied, Report.succeeded?] at done
      | ok =>
        simp only [applied] at done
        obtain rfl := Option.some.inj done
        exact means_operate held applied

end Deployer

/-! ## A platform whose endpoints fail -/

def Endpoint.Info.failed : Endpoint.Info := ⟨"zenml-model", .failed, none, some "out of capacity"⟩

/-- A platform that never finds an endpoint, and says of the ones that it creates, resumes or pauses that they
failed. -/
def Api.ailing : Api Unit where
  answer r _ :=
    match r.call with
    | .get _ => (.ok none, ())
    | .create _ => (.ok .failed, ())
    | .pause _ => (.ok .failed, ())
    | .resume _ => (.ok .failed, ())
    | .delete _ => (.ok (), ())

def Desk.ailing : Desk (Unit × Artifact.Memory) := ⟨⟨((), .empty), .cleared⟩, [("", Situation.fresh.service)]⟩

namespace Deployer

def ailing : Deployer (Unit × Artifact.Memory) :=
  .between { Settings.default with token := some "token", owner := some "owner" } .ailing .memory (.wide 0)

theorem run_means_ailing :
    let x := ailing.run .ailing [.operate 0 (.stop ⟨0⟩ false)]
    let h := { Situation.fresh.service with status := ⟨.error, none, some "out of capacity"⟩ }
    (ailing.report x (.operate 1 (.start ⟨0⟩))).succeeded? = some h ∧
      ailing.Means x (.operate 1 (.start ⟨0⟩)) h :=
  ⟨rfl, run_means ailing .ailing [.operate 0 (.stop ⟨0⟩ false)] (.operate 1 (.start ⟨0⟩)) _ rfl⟩

/-- The action succeeds although it heard last that the endpoint failed. -/
def Misleads (d : Deployer ω) (x : Desk ω) (a : Action) : Prop :=
  (d.report x a).succeeded?.isSome ∧ d.told x a = some .failed

/-- The first handle of the desk before an operation with this deployer, to which nothing has been said. -/
def unsure : Situation (Option Endpoint.Info × (Unit × Artifact.Memory)) :=
  ⟨Situation.fresh.service, (none, ((), .empty)), ⟨0⟩⟩

theorem misleads_of_asked {o : Operation}
    (asked : let p := o.ask ailing.pace (ailing.recalling.session Session.prompt.credentials) unsure
      p.1 = .ok () ∧ p.2.platform.1 = some .failed) : ailing.Misleads .ailing (.operate 0 o) := by
  have applied : ailing.recalling.apply o Situation.fresh.service Desk.ailing.unsaid.surroundings =
      let p := o.ask ailing.pace (ailing.recalling.session Session.prompt.credentials) unsure
      (p.1, p.2.service, ⟨p.2.platform, .cleared⟩) := by
    rw [apply_eq]
    rfl
  constructor
  · rw [← report_recalling]
    change (Report.operated (ailing.recalling.apply _ _ _).1 (ailing.recalling.apply _ _ _).2.1).succeeded?.isSome
    rw [applied, asked.1]
    rfl
  · change (ailing.recalling.apply _ _ _).2.2.world.1 = _
    rw [applied, asked.2]

theorem pause_unsure :
    (ailing.recalling.session Session.prompt.credentials).pause (ailing.pace (.ofSeconds 5))
        (unsure.update (·.inState .pendingShutdown)) =
      (.error (.fault (.notFound "zenml-model")), ⟨(Situation.fresh.service.inState .pendingShutdown).seen .failed,
        (some .failed, ((), .empty)), ⟨0⟩⟩) := by
  unfold Session.pause
  change (if Endpoint.State.failed = .paused then _ else Session.await _ _ _ _) = _
  rw [if_neg (by decide), Session.await_of_tellable (by decide) (by decide), Session.waitFor]
  rfl

/-- A start without time succeeds with a handle that shows an error. And nothing that excuses a success can be left
out: no time, force, and that the endpoint is missing. -/
theorem ailing_misleads :
    (∃ h, (ailing.report .ailing (.operate 0 (.start ⟨0⟩))).succeeded? = some h ∧ h.status.state = .error) ∧
    ailing.Misleads .ailing (.operate 0 (.start ⟨0⟩)) ∧
    ailing.Misleads .ailing (.operate 0 (.stop ⟨0⟩ false)) ∧
    ailing.Misleads .ailing (.operate 0 (.stop (.ofSeconds 5) true)) ∧
    ailing.Misleads .ailing (.operate 0 (.delete (.ofSeconds 5) false)) := by
  refine ⟨⟨_, rfl, rfl⟩, ⟨rfl, rfl⟩, ⟨rfl, rfl⟩, misleads_of_asked ?_, misleads_of_asked ?_⟩
  · rw [Operation.ask, Session.stop, pause_unsure]
    exact ⟨rfl, rfl⟩
  · rw [Operation.ask, Session.delete, Session.stop, pause_unsure]
    exact ⟨rfl, rfl⟩

end Deployer

end Deployment

end ModelDepot
