import ModelDepot.Proofs.Deployment.Runs

/-! # What a run tells

Every action tells its result to the one who does it. Two deployers whose platforms and registries answer
alike, and stay in some relation by it, tell the same, whatever is done with them.
-/

namespace ModelDepot

namespace Deployment

/-- What an action tells: its result, with the configuration or the handle as it is afterwards. -/
inductive Report where
  | deployed (result : Except Failure Service) (config : EndpointConfig)
  | found (result : Except Error Service)
  | operated (result : Except Failure Unit) (h : Service)
  | idle

namespace Deployer

variable {ω ω' : Type}

section

variable (d : Deployer ω)

def report (x : Desk ω) : Action → Report
  | .deploy model config timeout moments =>
    let o := d.deploy model config timeout moments x.surroundings
    .deployed o.result o.config
  | .find version => .found (d.find version x.surroundings.world)
  | .operate n o =>
    match x.held[n]? with
    | some (_, h) =>
      let (result, h, _) := d.apply o h x.surroundings
      .operated result h
    | none => .idle

def reports (x : Desk ω) : List Action → List Report
  | [] => []
  | a :: rest => d.report x a :: reports (d.perform x a) rest

end

/-! ## Deployers alike -/

/-- Two deployers that cannot be told apart in worlds that are in a relation: neither of them can begin a call, for
one reason, or their platforms answer alike; and so do their registries. -/
structure Alike (d : Deployer ω) (d' : Deployer ω') (R : ω → ω' → Prop) : Prop where
  pace : d'.pace = d.pace
  platform : (∀ e, ∃ f e', d.enter e = (.error f, e') ∧ d'.enter e = (.error f, e')) ∨
    ∃ c c', (∀ e, d.enter e = (.ok c, .exporting c)) ∧ (∀ e, d'.enter e = (.ok c', .exporting c')) ∧
      ∀ h, (d.session c).Agree (d'.session c') h R
  save : ∀ {a b} (name version payload options now), R a b →
    (d'.registry.save name version payload options now b).1 = (d.registry.save name version payload options now a).1 ∧
      R (d.registry.save name version payload options now a).2 (d'.registry.save name version payload options now b).2
  log : ∀ {a b} (name version metadata), R a b →
    (d'.registry.log name version metadata b).1 = (d.registry.log name version metadata a).1 ∧
      R (d.registry.log name version metadata a).2 (d'.registry.log name version metadata b).2
  load : ∀ {a b} (name version), R a b → d'.registry.load name version b = d.registry.load name version a

/-- Surroundings that differ only in their worlds, which are in a relation. -/
structure Within (R : ω → ω' → Prop) (w : Surroundings ω) (w' : Surroundings ω') : Prop where
  world : R w.world w'.world
  environment : w'.environment = w.environment

/-- Desks in such surroundings with the same handles in hand. -/
structure Facing (R : ω → ω' → Prop) (x : Desk ω) (y : Desk ω') : Prop where
  surroundings : Within R x.surroundings y.surroundings
  held : y.held = x.held

namespace Alike

variable {d : Deployer ω} {d' : Deployer ω'} {R : ω → ω' → Prop}

theorem platform_of_agree (same : d'.settings = d.settings)
    (agree : ∀ c h, (d.session c).Agree (d'.session c) h R) :
    (∀ e, ∃ f e', d.enter e = (.error f, e') ∧ d'.enter e = (.error f, e')) ∨
      ∃ c c', (∀ e, d.enter e = (.ok c, .exporting c)) ∧ (∀ e, d'.enter e = (.ok c', .exporting c')) ∧
        ∀ h, (d.session c).Agree (d'.session c') h R := by
  have enter : d'.enter = d.enter := by
    funext e
    rw [Deployer.enter, same, Deployer.enter]
  rw [enter]
  obtain stuck | ⟨c, -, entered⟩ := d.stuck_or_enters
  · refine .inl fun e => ?_
    obtain ⟨f, e', entered⟩ := stuck e
    exact ⟨f, e', entered, entered⟩
  · exact .inr ⟨c, c, entered, entered, agree c⟩

theorem keep (alike : d.Alike d' R) (version : String) (h : Service) (now : Timestamp) {a : ω} {b : ω'}
    (related : R a b) : (d'.keep version h now b).1 = (d.keep version h now a).1 ∧
      R (d.keep version h now a).2 (d'.keep version h now b).2 := by
  obtain ⟨answer, after⟩ := alike.save artifactName version h.toJson.sorted .deployment now related
  simp only [Deployer.keep]
  cases hs : d.registry.save artifactName version h.toJson.sorted .deployment now a with
  | mk result a' =>
    cases hs' : d'.registry.save artifactName version h.toJson.sorted .deployment now b with
    | mk result' b' =>
      rw [hs, hs'] at answer after
      obtain rfl : result' = result := answer
      cases result' with
      | error e => exact ⟨rfl, after⟩
      | ok v => exact alike.log artifactName version [(artifactName, h.toJson.sorted)] after

theorem apply (alike : d.Alike d' R) (o : Operation) (h : Service) {w : Surroundings ω} {w' : Surroundings ω'}
    (within : Within R w w') : (d'.apply o h w').1 = (d.apply o h w).1 ∧
      (d'.apply o h w').2.1 = (d.apply o h w).2.1 ∧ Within R (d.apply o h w).2.2 (d'.apply o h w').2.2 := by
  obtain stuck | ⟨c, c', entered, entered', agree⟩ := alike.platform
  · obtain ⟨f, e, failed, failed'⟩ := stuck w.environment
    rw [apply_of_stuck failed, apply_of_stuck (within.environment ▸ failed')]
    exact ⟨rfl, rfl, within.world, rfl⟩
  · rw [apply_eq, apply_eq]
    unfold operate
    obtain ⟨result, after⟩ := (agree h).operation
      ⟨rfl, rfl, within.world, .refl h⟩ (x := ⟨h, w.world, ⟨0⟩⟩) (y := ⟨h, w'.world, ⟨0⟩⟩) o d.pace
    rw [entered, entered', alike.pace]
    exact ⟨result.symm, after.service.symm, after.platform, rfl⟩

theorem deploy (alike : d.Alike d' R) (model : Uuid) (config : EndpointConfig) (timeout : Span)
    (moments : Moments) {w : Surroundings ω} {w' : Surroundings ω'} (within : Within R w w') :
    let o := d.deploy model config timeout moments w
    let o' := d'.deploy model config timeout moments w'
    o'.result = o.result ∧ o'.config = o.config ∧ Within R o.surroundings o'.surroundings := by
  obtain stuck | ⟨c, c', entered, entered', agree⟩ := alike.platform
  · obtain ⟨f, e, failed, failed'⟩ := stuck w.environment
    rw [deploy_of_stuck failed, deploy_of_stuck (within.environment ▸ failed')]
    exact ⟨rfl, rfl, within.world, rfl⟩
  unfold Deployer.deploy
  rw [entered, entered', alike.pace]
  simp only
  generalize ({ config with endpointName := _ } : EndpointConfig) = named
  generalize Service.new model named moments.made = h
  obtain ⟨answer, after⟩ := alike.keep (versionOf model) h moments.kept within.world
  cases hk : d.keep (versionOf model) h moments.kept w.world with
  | mk result a =>
    cases hk' : d'.keep (versionOf model) h moments.kept w'.world with
    | mk result' b =>
      rw [hk, hk'] at answer after
      obtain rfl : result' = result := answer
      cases result' with
      | error e => exact ⟨rfl, rfl, after, rfl⟩
      | ok =>
        obtain ⟨started, along⟩ := (agree h).start (d.pace timeout)
          (x := ⟨h, a, ⟨0⟩⟩) (y := ⟨h, b, ⟨0⟩⟩) ⟨rfl, rfl, after, .refl h⟩
        exact ⟨by simp only [started, along.service], rfl, along.platform, rfl⟩

theorem find (alike : d.Alike d' R) (version : String) {a : ω} {b : ω'} (related : R a b) :
    d'.find version b = d.find version a := by
  unfold Deployer.find
  rw [alike.load artifactName version related]

/-- One action tells the same on both sides and leaves desks that face each other. -/
theorem perform (alike : d.Alike d' R) {x : Desk ω} {y : Desk ω'} (facing : Facing R x y) (a : Action) :
    d'.report y a = d.report x a ∧ Facing R (d.perform x a) (d'.perform y a) := by
  cases a with
  | deploy model config timeout moments =>
    obtain ⟨result, named, within⟩ := alike.deploy model config timeout moments facing.surroundings
    refine ⟨by simp only [report, result, named], ?_⟩
    simp only [Deployer.perform, result]
    cases (d.deploy model config timeout moments x.surroundings).result with
    | ok h => exact ⟨within, by rw [facing.held]⟩
    | error e => exact ⟨within, facing.held⟩
  | find version =>
    have found := alike.find version facing.surroundings.world
    refine ⟨by simp only [report, found], ?_⟩
    simp only [Deployer.perform, found]
    cases d.find version x.surroundings.world with
    | ok h => exact ⟨facing.surroundings, by rw [facing.held]⟩
    | error e => exact facing
  | operate n o =>
    simp only [report, Deployer.perform, facing.held]
    cases x.held[n]? with
    | none => exact ⟨rfl, facing⟩
    | some kept =>
      obtain ⟨result, service, within⟩ := alike.apply o kept.2 facing.surroundings
      simp only [result, service]
      exact ⟨trivial, within, rfl⟩

/-- **Deployers alike tell the same**, whatever is done with them. -/
theorem run (alike : d.Alike d' R) {x : Desk ω} {y : Desk ω'} (facing : Facing R x y) (actions : List Action) :
    d'.reports y actions = d.reports x actions ∧ Facing R (d.run x actions) (d'.run y actions) := by
  induction actions generalizing x y with
  | nil => exact ⟨rfl, facing⟩
  | cons a rest ih =>
    obtain ⟨told, facing'⟩ := alike.perform facing a
    obtain ⟨tells, after⟩ := ih facing'
    exact ⟨by rw [reports, reports, told, tells], after⟩

end Alike

end Deployer

end Deployment

end ModelDepot
