import ModelDepot.Proofs.Deployment.Listing

/-! # Orders that end before the platform is asked

Without credentials an order changes nothing at all. If the version of its model is taken it changes nothing but
the name of the endpoint in the configuration, which is given before the registry is asked.
-/

namespace ModelDepot

open Artifact (Folder Memory label requireSegments)

/-! ## Registries that refuse -/

/-- One of the registries that there are. -/
inductive Registry.Provided : {ρ : Type} → Registry ρ → Prop where
  | memory : Provided .memory
  | folder (f : Folder) : Provided (.folder f)

/-- A registry says that a version is there already only of the version that it was asked to save, and then it is
as it was. -/
structure Registry.Candid {ρ : Type} (reg : Registry ρ) : Prop where
  save {name version : String} {payload : Json} {options : Artifact.SaveOptions} {now : Timestamp} {r r' : ρ}
    {key : String} : reg.save name version payload options now r = (.error (.alreadyExists key), r') →
      key = label name version ∧ r' = r
  log {name version : String} {metadata : Json.Members} {r : ρ} {key : String} :
    (reg.log name version metadata r).1 ≠ .error (.alreadyExists key)

namespace Artifact

theorem invalidName_of_requireSegments {name version : String} {e : Error} (h : requireSegments name version = .error e) :
    ∃ text, e = .invalidName text := by
  unfold requireSegments requireSegment at h
  by_cases hn : isSegment name = true
  · by_cases hv : isSegment version = true
    · simp [hn, hv, bind, Except.bind] at h
    · simp only [hn, hv, bind, Except.bind, if_true] at h
      exact ⟨_, (Except.error.inj h).symm⟩
  · simp only [hn, bind, Except.bind] at h
    exact ⟨_, (Except.error.inj h).symm⟩

theorem Memory.candid : Registry.memory.Candid where
  save := by
    intro name version payload options now r r' key h
    simp only [Registry.memory, Memory.save] at h
    split at h
    · next e invalid =>
      obtain ⟨text, rfl⟩ := invalidName_of_requireSegments invalid
      simp at h
    split at h
    · simp only [Prod.mk.injEq, Except.error.injEq, Error.alreadyExists.injEq] at h
      exact ⟨h.1.symm, h.2.symm⟩
    · simp at h
  log := by
    intro name version metadata r key h
    simp only [Registry.memory, Memory.log] at h
    split at h <;> simp at h

namespace Folder

variable {p : Files.Path} {a : StoredArtifact} {fs : Files.FileSystem} {key : String}

theorem get_ne_alreadyExists : ((get p).run fs).1 ≠ .error (.alreadyExists key) := by
  simp only [get, Files.Program.run_bind, Files.Program.run_read]
  split
  · simp [Files.Program.run_pure]
  · split <;> simp [Files.Program.run_pure]

theorem set_ne_alreadyExists : ((set p a).run fs).1 ≠ .error (.alreadyExists key) := by
  simp only [set, Files.Program.run_bind, Files.Program.run_makeDirectories]
  split
  · simp [Files.Program.run_pure]
  · simp only [Files.Program.run_bind, Files.Program.run_write, Files.Program.run_pure, Files.Program.written, lift]
    split <;> simp_all

theorem candid (f : Folder) : (Registry.folder f).Candid where
  save := by
    intro name version payload options now fs fs' key h
    simp only [Registry.folder, run_save] at h
    split at h
    · next e invalid =>
      obtain ⟨text, rfl⟩ := invalidName_of_requireSegments invalid
      simp at h
    split at h
    · simp only [Prod.mk.injEq, Except.error.injEq, Error.alreadyExists.injEq] at h
      exact ⟨h.1.symm, h.2.symm⟩
    · cases written : ((set (f.pathOf name version) ⟨.new name version options now, payload, []⟩).run fs).1 with
      | error e =>
        simp only [written, Except.map, Prod.mk.injEq, Except.error.injEq] at h
        exact absurd (h.1 ▸ written) set_ne_alreadyExists
      | ok => simp [written, Except.map] at h
  log := by
    intro name version metadata fs key h
    simp only [Registry.folder, run_log] at h
    split at h
    · next e invalid =>
      obtain ⟨text, rfl⟩ := invalidName_of_requireSegments invalid
      simp at h
    split at h
    · simp at h
    split at h
    · next e failed =>
      simp only [Except.error.injEq] at h
      exact get_ne_alreadyExists (h ▸ failed)
    · exact set_ne_alreadyExists h

end Folder

end Artifact

theorem Registry.Provided.candid {ρ : Type} {reg : Registry ρ} (provided : reg.Provided) : reg.Candid := by
  cases provided with
  | memory => exact Artifact.Memory.candid
  | folder f => exact f.candid

namespace Deployment

variable {σ ρ : Type} {registry : Registry ρ} {o : Order σ} {c : Credentials} {w : Surroundings ((σ × ρ) × List Event)}

/-! ## Orders that are refused -/

namespace Order

theorem keep_alreadyExists (candid : registry.Candid) {world world' : (σ × ρ) × List Event} {key : String}
    (refused : o.keep registry world = (.error (.alreadyExists key), world')) :
    key = label Deployer.artifactName o.version ∧ world' = world := by
  rw [keep_eq] at refused
  cases saved : registry.save Deployer.artifactName o.version o.payload .deployment o.moments.kept world.1.2 with
  | mk answer r =>
    rw [saved] at refused
    cases answer with
    | error e =>
      simp only [Prod.mk.injEq, Except.error.injEq] at refused
      obtain ⟨rfl, rfl⟩ := refused
      obtain ⟨same, rfl⟩ := candid.save saved
      exact ⟨same, rfl⟩
    | ok v => exact absurd (congrArg Prod.fst refused) candid.log

theorem asked_of_kept (entered : (o.deployer registry).enter w.environment = (.ok c, .exporting c)) {world : (σ × ρ) × List Event}
    (kept : o.keep registry w.world = (.ok (), world)) :
    ∃ r, .asked r ∈ (o.record registry w).surroundings.journal := by
  let d : Deployer (σ × ρ) := o.deployer registry
  let x : Situation (σ × ρ) := ⟨o.handle, world.1, ⟨0⟩⟩
  have journal : (o.record registry w).surroundings.journal =
      world.2 ++ ((d.session c).requests (·.start (d.pace o.timeout)) x).map .asked := by
    rw [record_eq entered, kept]
    exact d.operation_journal (.start o.timeout) c o.handle world
  refine ⟨(d.session c).lookup x, ?_⟩
  rw [journal]
  exact List.mem_append_right _ (List.mem_map_of_mem ((d.session c).start_asks x _))

theorem named_ne (o : Order σ) : o.named ≠ o.config := by
  intro same
  have length := congrArg (String.length ∘ EndpointConfig.endpointName) same
  have version := Deployer.length_versionOf o.model
  simp only [Function.comp_apply, named, EndpointConfig.versionedName, Order.version, String.length_append, version]
    at length
  split at length
  · omega
  · rw [String.length_append] at length
    omega

/-- **An order that ends before anything is asked of the platform leaves things as they were**, in a registry of
either kind and whatever is in it. Without credentials that is so of everything. If the registry has the version
already, it is so of the registry and of the configuration but for the name of the endpoint, which is then the one
for the version. The journal that tells changes nothing of what is done. -/
theorem refused_leaves (provided : registry.Provided) (o : Order σ) (w : Surroundings (σ × ρ)) :
    let start : Surroundings ((σ × ρ) × List Event) := ⟨(w.world, []), w.environment⟩
    let d := o.record registry start
    (⟨d.result, d.config, d.surroundings.bare⟩ : Deployer.Deployed (σ × ρ)) = o.place registry w ∧
      (∀ e, o.settings.credentials = .error e →
        d.result = .error (.fault (.config e)) ∧ d.config = o.config ∧ d.surroundings = start) ∧
      ∀ key, d.result = .error (.fault (.artifact (.alreadyExists key))) → (∀ r, .asked r ∉ d.surroundings.journal) →
        key = label Deployer.artifactName o.version ∧ d.surroundings.world = start.world ∧
          d.config = { o.config with endpointName := EndpointConfig.versionedName o.config.endpointName o.version } := by
  intro start d
  refine ⟨(o.deployer registry).deploy_journaled o.model o.config o.timeout o.moments start, ?_, ?_⟩
  · intro e unable
    rw [show d = _ from record_of_stuck (Deployer.enter_of_error (d := o.deployer registry) unable start.environment)]
    exact ⟨rfl, rfl, rfl⟩
  intro key failed silent
  obtain ⟨fault, -, entered⟩ | ⟨c, -, -, entered⟩ | ⟨c, -, -, entered⟩ := (o.deployer registry).enter_cases
  · rw [show d = _ from record_of_stuck (entered _)] at failed
    simp at failed
  · obtain ⟨p, panicked⟩ := entered start.environment
    rw [show d = _ from record_of_stuck panicked] at failed
    simp at failed
  · have begun := entered start.environment
    cases kept : o.keep registry start.world with
    | mk answer world =>
      cases answer with
      | error e =>
        have done : d = ⟨.error (.fault (.artifact e)), o.named, ⟨world, .cleared⟩⟩ := by
          rw [show d = _ from record_eq begun, kept]
        rw [done] at failed ⊢
        simp only [Except.error.injEq, Failure.fault.injEq, Error.artifact.injEq] at failed
        subst failed
        obtain ⟨same, unchanged⟩ := keep_alreadyExists provided.candid kept
        exact ⟨same, unchanged, rfl⟩
      | ok =>
        -- Every start asks for the endpoint first, whatever it comes to.
        obtain ⟨r, asked⟩ := asked_of_kept begun kept
        exact absurd asked (silent r)

/-- The first order with the configuration that it left. -/
def reused : Order Bool := { first with config := first.named }

theorem record_reused : reused.record .memory ⟨((true, stock [first]), []), .cleared⟩ =
    ⟨.error (.fault (.artifact (.alreadyExists reused.key))), reused.named, ⟨((true, stock [first]), []), .cleared⟩⟩ := by
  rw [record_eq (c := Session.prompt.credentials) rfl, keep_stock_taken (by decide) (by decide)]
  rfl

theorem refused_leaves_reused :
    let start : Surroundings ((Bool × Memory) × List Event) := ⟨((true, stock [first]), []), .cleared⟩
    let d := reused.record .memory start
    Registry.memory.Provided ∧ d.result = .error (.fault (.artifact (.alreadyExists reused.key))) ∧
      (⟨d.result, d.config, d.surroundings.bare⟩ : Deployer.Deployed (Bool × Memory)) = reused.place .memory start.bare ∧
      d.surroundings.world = start.world ∧
      d.config = { reused.config with
        endpointName := EndpointConfig.versionedName reused.config.endpointName reused.version } := by
  obtain ⟨same, -, refused⟩ := refused_leaves .memory reused ⟨(true, stock [first]), .cleared⟩
  have result := congrArg Deployer.Deployed.result record_reused
  obtain ⟨-, unchanged, config⟩ := refused reused.key result (by rw [record_reused]; simp [Surroundings.journal])
  exact ⟨.memory, result, same, unchanged, config⟩

/-- The configuration of an order that is refused is not as it was before. -/
theorem refused_renames :
    let d := reused.record .memory ⟨((true, stock [first]), []), .cleared⟩
    d.result = .error (.fault (.artifact (.alreadyExists reused.key))) ∧ d.surroundings.journal = [] ∧
      d.config ≠ reused.config := by
  rw [record_reused]
  exact ⟨rfl, rfl, reused.named_ne⟩

end Order

end Deployment

end ModelDepot
