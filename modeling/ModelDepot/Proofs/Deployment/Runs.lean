import ModelDepot.Deployment.Deployer
import ModelDepot.Proofs.Deployment.Sessions

/-! # Runs of a deployer

A run deploys models, finds handles, and operates on any handle that it has had in hand. Handles can be
copied, so that an operation leaves the handle that it was given where it is.
-/

namespace ModelDepot

namespace Deployment

/-- What can be done to the endpoint of a handle. -/
inductive Operation where
  | start (timeout : Span)
  | stop (timeout : Span) (force : Bool)
  | delete (timeout : Span) (force : Bool)

/-- What can be done with a deployer. A handle is chosen by its number among those in hand. -/
inductive Action where
  | deploy (model : Uuid) (config : EndpointConfig) (timeout : Span) (moments : Deployer.Moments)
  | find (version : String)
  | operate (n : Nat) (operation : Operation)

/-- The surroundings and the handles in hand, the latest last, each with the version that it is kept
under. -/
structure Desk (ω : Type) where
  surroundings : Surroundings ω
  held : List (String × Service)

/-- What an operation asks of the platform. -/
def Operation.ask {σ : Type} (o : Operation) (pace : Span → Pace) (s : Session σ) (x : Situation σ) :
    Outcome σ Failure Unit :=
  match o with
  | start timeout => s.start (pace timeout) x
  | stop timeout force => s.stop (pace timeout) force x
  | delete timeout force => s.delete (pace timeout) force x

theorem Session.Agree.operation {σ τ : Type} {s : Session σ} {t : Session τ} {h : Service} {R : σ → τ → Prop}
    {x : Situation σ} {y : Situation τ} (agree : Agree s t h R) (along : Along h R x y) (o : Operation)
    (pace : Span → Pace) : Alike h R (o.ask pace s x) (o.ask pace t y) := by
  cases o with
  | start timeout => exact agree.start _ along
  | stop timeout force => exact agree.stop _ force along
  | delete timeout force => exact agree.delete _ force along

/-! ## The beginning of a call -/

theorem Environment.acquire_of_exportable {c : Credentials} (exportable : c.exportable) (e : Environment) :
    e.acquire c = (.ok (), .exporting c) := by
  obtain ⟨token, owner⟩ := Bool.and_eq_true_iff.mp exportable
  rw [acquire, if_pos token, if_pos owner]

theorem Environment.acquire_of_not_exportable {c : Credentials} (unfit : c.exportable = false) (e : Environment) :
    ∃ p e', e.acquire c = (.error p, e') := by
  unfold acquire
  split
  · next token =>
    rw [if_neg fun owner => by simp [Credentials.exportable, token, owner] at unfit]
    exact ⟨_, _, rfl⟩
  · exact ⟨_, _, rfl⟩

namespace Deployer

variable {ω : Type} (d : Deployer ω)

section

variable {d} {c : Credentials}

theorem enter_of_error {fault : ConfigFault} (unable : d.settings.credentials = .error fault) (e : Environment) :
    d.enter e = (.error (.fault (.config fault)), e) := by
  rw [enter, unable]

theorem enter_of_exportable (able : d.settings.credentials = .ok c) (exportable : c.exportable) (e : Environment) :
    d.enter e = (.ok c, .exporting c) := by
  rw [enter, able]
  simp only [Environment.acquire_of_exportable exportable]

theorem enter_of_not_exportable (able : d.settings.credentials = .ok c) (unfit : c.exportable = false)
    (e : Environment) : ∃ p, d.enter e = (.error (.panic p), (e.acquire c).2) := by
  obtain ⟨p, e', panicked⟩ := Environment.acquire_of_not_exportable unfit e
  refine ⟨p, ?_⟩
  rw [enter, able]
  simp only [panicked]

variable (d)

theorem enter_cases :
    (∃ fault, d.settings.credentials = .error fault ∧ ∀ e, d.enter e = (.error (.fault (.config fault)), e)) ∨
    (∃ c, d.settings.credentials = .ok c ∧ c.exportable = false ∧
      ∀ e, ∃ p, d.enter e = (.error (.panic p), (e.acquire c).2)) ∨
    ∃ c, d.settings.credentials = .ok c ∧ c.exportable ∧ ∀ e, d.enter e = (.ok c, .exporting c) := by
  cases able : d.settings.credentials with
  | error fault => exact .inl ⟨fault, rfl, enter_of_error able⟩
  | ok c =>
    cases exportable : c.exportable with
    | true => exact .inr (.inr ⟨c, rfl, exportable, enter_of_exportable able exportable⟩)
    | false => exact .inr (.inl ⟨c, rfl, exportable, enter_of_not_exportable able exportable⟩)

/-- Whether a call begins is a matter of the settings, not of the environment that it finds. -/
theorem stuck_or_enters : (∀ e, ∃ f e', d.enter e = (.error f, e')) ∨
    ∃ c, d.settings.credentials = .ok c ∧ ∀ e, d.enter e = (.ok c, .exporting c) := by
  obtain ⟨fault, -, entered⟩ | ⟨c, -, -, entered⟩ | ⟨c, able, -, entered⟩ := d.enter_cases
  · exact .inl fun e => ⟨_, _, entered e⟩
  · refine .inl fun e => ?_
    obtain ⟨p, panicked⟩ := entered e
    exact ⟨_, _, panicked⟩
  · exact .inr ⟨c, able, entered⟩

end

/-! ## Actions -/

def apply (o : Operation) : Service → Surroundings ω → Except Failure Unit × Service × Surroundings ω :=
  match o with
  | .start timeout => d.start timeout
  | .stop timeout force => d.stop timeout force
  | .delete timeout force => d.delete timeout force

theorem apply_eq (o : Operation) : d.apply o = d.operate (o.ask d.pace) := by cases o <;> rfl

section

variable {d} {f : Failure} {w : Surroundings ω} {e : Environment}

theorem apply_of_stuck (failed : d.enter w.environment = (.error f, e)) (o : Operation) (h : Service) :
    d.apply o h w = (.error f, h, { w with environment := e }) := by
  rw [apply_eq]
  unfold operate
  rw [failed]

theorem deploy_of_stuck (failed : d.enter w.environment = (.error f, e)) (model : Uuid) (config : EndpointConfig)
    (timeout : Span) (moments : Moments) :
    d.deploy model config timeout moments w = ⟨.error f, config, { w with environment := e }⟩ := by
  unfold deploy
  rw [failed]

end

/-- Does one action and puts the handle that comes of it with the others. -/
def perform (x : Desk ω) : Action → Desk ω
  | .deploy model config timeout moments =>
    let o := d.deploy model config timeout moments x.surroundings
    match o.result with
    | .ok h => ⟨o.surroundings, x.held ++ [(versionOf model, h)]⟩
    | .error _ => ⟨o.surroundings, x.held⟩
  | .find version =>
    match d.find version x.surroundings.world with
    | .ok h => { x with held := x.held ++ [(version, h)] }
    | .error _ => x
  | .operate n o =>
    match x.held[n]? with
    | some (version, h) =>
      let (_, h, w) := d.apply o h x.surroundings
      ⟨w, x.held ++ [(version, h)]⟩
    | none => x

def run (x : Desk ω) (actions : List Action) : Desk ω := actions.foldl d.perform x

end Deployer

end Deployment

end ModelDepot
