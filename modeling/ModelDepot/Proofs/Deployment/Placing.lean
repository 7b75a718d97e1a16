import ModelDepot.Proofs.Deployment.Distinct

/-! # One order

An order without credentials ends at once. Else its handle is saved and then logged; only if both were done is
the endpoint started, and from then on the registry is left alone.
-/

namespace ModelDepot

namespace Deployment

namespace Order

variable {σ ρ : Type} {o : Order σ} {registry : Registry ρ} {c : Credentials} {w : Surroundings ((σ × ρ) × List Event)}

def payload (o : Order σ) : Json := o.handle.toJson.sorted

/-- The artifact of an order when its handle was saved, and not yet logged. -/
def unlogged (o : Order σ) : StoredArtifact :=
  ⟨.new Deployer.artifactName o.version .deployment o.moments.kept, o.payload, []⟩

def logged (o : Order σ) : StoredArtifact := o.unlogged.addMetadata [(Deployer.artifactName, o.payload)]

/-! ## Keeping the handle -/

/-- What the first part of an order leaves, which keeps the handle. -/
def keep (o : Order σ) (registry : Registry ρ) (w : (σ × ρ) × List Event) :
    Except Artifact.Error Unit × ((σ × ρ) × List Event) :=
  (o.deployer registry).journaled.keep o.version o.handle o.moments.kept w

theorem keep_eq (world : (σ × ρ) × List Event) :
    o.keep registry world =
      match registry.save Deployer.artifactName o.version o.payload .deployment o.moments.kept world.1.2 with
      | (.error e, r) => (.error e, ((world.1.1, r), world.2))
      | (.ok _, r) =>
        let (answer, r) := registry.log Deployer.artifactName o.version [(Deployer.artifactName, o.payload)] r
        (answer, ((world.1.1, r), world.2 ++ [.saved Deployer.artifactName o.version o.payload])) := by
  unfold keep Deployer.keep
  simp only [deployer, Deployer.recorder_registry]
  rw [show o.handle.toJson.sorted = o.payload from rfl]
  cases saved : registry.save Deployer.artifactName o.version o.payload .deployment o.moments.kept world.1.2 with
  | mk answer r =>
    cases answer with
    | error e => rw [save_refused saved]
    | ok v =>
      rw [save_accepted saved]
      rfl

/-! ## The whole order -/

theorem record_of_stuck {f : Failure} {e : Environment}
    (failed : (o.deployer registry).enter w.environment = (.error f, e)) :
    o.record registry w = ⟨.error f, o.config, { w with environment := e }⟩ :=
  Deployer.deploy_of_stuck (d := (o.deployer registry).journaled) failed o.model o.config o.timeout o.moments

theorem deploy_eq {ω : Type} (o : Order σ) (d : Deployer ω) (w : Surroundings ω)
    (entered : d.enter w.environment = (.ok c, .exporting c)) :
    d.deploy o.model o.config o.timeout o.moments w =
      match d.keep o.version o.handle o.moments.kept w.world with
      | (.error e, world) => ⟨.error (.fault (.artifact e)), o.named, ⟨world, .cleared⟩⟩
      | (.ok (), world) =>
        let (result, x) := (d.session c).start (d.pace o.timeout) ⟨o.handle, world, ⟨0⟩⟩
        ⟨result.map fun _ => x.service, o.named, ⟨x.platform, .cleared⟩⟩ := by
  unfold Deployer.deploy
  simp only [entered]
  generalize made : Service.new o.model _ o.moments.made = h
  obtain rfl : o.handle = h := made
  rw [show Deployer.versionOf o.model = o.version from rfl]
  cases d.keep o.version o.handle o.moments.kept w.world with
  | mk answer world => cases answer <;> rfl

theorem record_eq (entered : (o.deployer registry).enter w.environment = (.ok c, .exporting c)) :
    o.record registry w =
      match o.keep registry w.world with
      | (.error e, world) => ⟨.error (.fault (.artifact e)), o.named, ⟨world, .cleared⟩⟩
      | (.ok (), world) =>
        let d := (o.deployer registry).journaled
        let (result, x) := (d.session c).start (d.pace o.timeout) ⟨o.handle, world, ⟨0⟩⟩
        ⟨result.map fun _ => x.service, o.named, ⟨x.platform, .cleared⟩⟩ := by
  unfold record keep
  rw [o.deploy_eq (o.deployer registry).journaled w entered]
  cases (o.deployer registry).journaled.keep o.version o.handle o.moments.kept w.world with
  | mk answer world => cases answer <;> rfl

theorem started_onlyAsked (o : Order σ) (registry : Registry ρ) (able : o.settings.credentials = .ok c)
    (world : (σ × ρ) × List Event) :
    let d := (o.deployer registry).journaled
    let x := ((d.session c).start (d.pace o.timeout) ⟨o.handle, world, ⟨0⟩⟩).2
    o.handle.SameDeployment x.service ∧ OnlyAsked o.settings o.named world x.platform :=
  operation_onlyAsked able (.start o.timeout) rfl

theorem record_of_kept (able : o.settings.credentials = .ok c)
    (entered : (o.deployer registry).enter w.environment = (.ok c, .exporting c)) {world : (σ × ρ) × List Event}
    (kept : o.keep registry w.world = (.ok (), world)) :
    OnlyAsked o.settings o.named world (o.record registry w).surroundings.world ∧
      ∀ h, (o.record registry w).result = .ok h → o.handle.SameDeployment h := by
  obtain ⟨same, asked⟩ := o.started_onlyAsked registry able world
  rw [record_eq entered, kept]
  refine ⟨asked, fun h result => ?_⟩
  rw [ok_of_map result]
  exact same

/-- An order that succeeds had its handle saved and then logged, and nothing else happened to the registry. -/
theorem kept_of_place {w : Surroundings (σ × ρ)} {h : Service} (placed : (o.place registry w).result = .ok h) :
    o.handle.SameDeployment h ∧ ∃ v r,
      registry.save Deployer.artifactName o.version o.payload .deployment o.moments.kept w.world.2 = (.ok v, r) ∧
        registry.log Deployer.artifactName o.version [(Deployer.artifactName, o.payload)] r =
          (.ok (), (o.place registry w).surroundings.world.2) := by
  let start : Surroundings ((σ × ρ) × List Event) := ⟨(w.world, []), w.environment⟩
  have same : (⟨(o.record registry start).result, (o.record registry start).config,
      (o.record registry start).surroundings.bare⟩ : Deployer.Deployed (σ × ρ)) = o.place registry w :=
    (o.deployer registry).deploy_journaled o.model o.config o.timeout o.moments start
  rw [← same] at placed ⊢
  obtain stuck | ⟨c, able, entered⟩ := (o.deployer registry).stuck_or_enters
  · obtain ⟨f, e, failed⟩ := stuck start.environment
    simp [record_of_stuck failed] at placed
  · cases kept : o.keep registry start.world with
    | mk answer world =>
      cases answer with
      | error e => simp [record_eq (entered start.environment), kept] at placed
      | ok =>
        obtain ⟨asked, result⟩ := record_of_kept (w := start) able (entered _) kept
        refine ⟨result h placed, ?_⟩
        rw [keep_eq] at kept
        cases saved : registry.save Deployer.artifactName o.version o.payload .deployment o.moments.kept start.world.1.2 with
        | mk answer r =>
          cases answer with
          | error e => simp [saved] at kept
          | ok v =>
            simp only [saved, Prod.mk.injEq] at kept
            obtain ⟨logged, rfl⟩ := kept
            exact ⟨v, r, rfl, Prod.ext logged asked.registry.symm⟩

end Order

end Deployment

end ModelDepot
