import ModelDepot.Proofs.Artifact.Taken
import ModelDepot.Proofs.Deployment.Names

/-! # One endpoint for one model version

The name of an endpoint ends in the version that its handle is kept under, all versions are equally long, and a
registry takes every version once. So handles that were saved through one registry name different endpoints,
and a model whose version is taken is refused before the platform hears of it.
-/

namespace ModelDepot

open Artifact (Saved label)

namespace Deployment

variable {σ ρ ω : Type}

/-! ## Names that end in a version -/

theorem EndpointConfig.version_of_versionedName {name name' version version' : String}
    (length : version.length = version'.length) (same : versionedName name version = versionedName name' version') :
    version = version' := by
  unfold versionedName at same
  have texts := congrArg String.toList same
  rw [String.toList_append, String.toList_append] at texts
  obtain ⟨-, ends⟩ := List.append_inj' texts (by simpa only [String.length_toList] using length)
  exact String.toList_inj.mp ends

theorem Uuid.length_chars (u : Uuid) : u.chars.length = 36 := by
  simp [Uuid.chars, u.size]

theorem Deployer.length_versionOf (model : Uuid) : (versionOf model).length = 8 := by
  simp [versionOf, Uuid.short, Uuid.shortLength, Uuid.length_chars]

theorem Deployer.versionOf_eq_iff {model model' : Uuid} :
    versionOf model = versionOf model' ↔ model.text.toList.take 8 = model'.text.toList.take 8 := by
  simp [versionOf, Uuid.short, Uuid.shortLength, Uuid.text, String.ext_iff]

/-! ## Deployments that are refused -/

namespace Deployer

variable (d : Deployer ω) (model : Uuid) (config : EndpointConfig) (timeout : Span) (moments : Moments)
  (w : Surroundings ω)

theorem config_of_deploy {c : Credentials} (entered : d.enter w.environment = (.ok c, .exporting c)) :
    (d.deploy model config timeout moments w).config =
      { config with endpointName := EndpointConfig.versionedName config.endpointName (versionOf model) } := by
  unfold deploy
  simp only [entered]
  split <;> rfl

theorem deploy_refused {c : Credentials} (entered : d.enter w.environment = (.ok c, .exporting c))
    (refuses : d.registry.Refuses artifactName (versionOf model) w.world) :
    d.deploy model config timeout moments w =
      ⟨.error (.fault (.artifact (.alreadyExists (label artifactName (versionOf model))))),
        { config with endpointName := EndpointConfig.versionedName config.endpointName (versionOf model) }, ⟨w.world, .cleared⟩⟩ := by
  unfold deploy keep
  simp only [entered, refuses _ _ _]

end Deployer

theorem refuses_noting {registry : Registry ρ} {name version : String} {w : (σ × ρ) × List Event}
    (refuses : registry.Refuses name version w.1.2) : (registry.beside.noting Event.saved).Refuses name version w := by
  intro payload options now
  rw [save_refused (refuses payload options now)]

/-! ## Orders -/

/-- A deployment that is ordered: whose it is, and what it is told. -/
structure Order (σ : Type) where
  settings : Settings
  api : Api σ
  clock : Clock
  model : Uuid
  config : EndpointConfig
  timeout : Span
  moments : Deployer.Moments

namespace Order

variable (o : Order σ) (registry : Registry ρ)

def version : String := Deployer.versionOf o.model

/-- The configuration, with the name of the endpoint for the model version. -/
def named : EndpointConfig :=
  { o.config with endpointName := EndpointConfig.versionedName o.config.endpointName o.version }

def handle : Service := .new o.model o.named o.moments.made

/-- What the registry keeps if it accepts the handle. -/
def saved : Saved := ⟨o.version, o.handle.toJson.sorted⟩

def deployer : Deployer (σ × ρ) := .between o.settings o.api registry o.clock

def place (w : Surroundings (σ × ρ)) : Deployer.Deployed (σ × ρ) :=
  (o.deployer registry).deploy o.model o.config o.timeout o.moments w

/-- The same with a journal. -/
def record (w : Surroundings ((σ × ρ) × List Event)) : Deployer.Deployed ((σ × ρ) × List Event) :=
  (o.deployer registry).journaled.deploy o.model o.config o.timeout o.moments w

/-- What is left when orders were placed one after the other. -/
def placeAll (orders : List (Order σ)) (w : Surroundings (σ × ρ)) : Surroundings (σ × ρ) :=
  orders.foldl (fun w o => (o.place registry w).surroundings) w

@[inherit_doc placeAll]
def recordAll (orders : List (Order σ)) (w : Surroundings ((σ × ρ) × List Event)) :
    Surroundings ((σ × ρ) × List Event) :=
  orders.foldl (fun w o => (o.record registry w).surroundings) w

theorem recordAll_bare (orders : List (Order σ)) (w : Surroundings ((σ × ρ) × List Event)) :
    (recordAll registry orders w).bare = placeAll registry orders w.bare := by
  induction orders generalizing w with
  | nil => rfl
  | cons o rest ih =>
    have step := (o.deployer registry).deploy_journaled o.model o.config o.timeout o.moments w
    have placed := congrArg Deployer.Deployed.surroundings step
    refine (ih (o.record registry w).surroundings).trans ?_
    exact congrArg (placeAll registry rest) placed

end Order

/-- What a run of orders through one registry leaves: of some of them, the kept ones, the handles were saved,
and they name different endpoints, each the one for its configuration and version. Only those are asked about,
and only their handles are found. -/
structure Allotted (registry : Registry ρ) (orders kept : List (Order σ)) (w : Surroundings ((σ × ρ) × List Event)) :
    Prop where
  ordered : kept.Sublist orders
  saved : savedOf w.journal = kept.map Order.saved
  distinct : kept.Pairwise fun a b => a.version ≠ b.version ∧ a.named.endpointName ≠ b.named.endpointName
  able : ∀ k ∈ kept, ∃ c, k.settings.credentials = .ok c
  asked : ∀ r, .asked r ∈ w.journal → ∃ k ∈ kept, r.Concerns k.settings k.named
  found : ∀ (o : Order σ) version h, (o.deployer registry).find version w.bare.world = .ok h →
    ∃ k ∈ kept, k.version = version ∧
      h.config.endpointName = EndpointConfig.versionedName k.config.endpointName version

/-! ## Runs -/

variable {registry : Registry ρ} {Holds : List Saved → ρ → Prop} {orders kept : List (Order σ)}
  {w : Surroundings ((σ × ρ) × List Event)}

/-- What every order keeps up. -/
structure Booked (Holds : List Saved → ρ → Prop) (orders kept : List (Order σ))
    (w : Surroundings ((σ × ρ) × List Event)) : Prop where
  ordered : kept.Sublist orders
  saved : savedOf w.journal = kept.map Order.saved
  able : ∀ k ∈ kept, ∃ c, k.settings.credentials = .ok c
  asked : ∀ r, .asked r ∈ w.journal → ∃ k ∈ kept, r.Concerns k.settings k.named
  holds : Holds (savedOf w.journal) w.world.1.2

/-- An order is kept, or it saves nothing and asks nothing. -/
theorem Booked.record (keeping : registry.Keeping Deployer.artifactName Holds) (booked : Booked Holds orders kept w)
    (o : Order σ) : ∃ kept', Booked Holds (orders ++ [o]) kept' (o.record registry w).surroundings := by
  obtain ⟨holds, ⟨same, -⟩ | ⟨requests, journal, concern, -⟩⟩ := deploy_noted keeping booked.holds
    (rfl : _ = o.record registry w)
  · refine ⟨kept, booked.ordered.trans (List.sublist_append_left _ _), ?_, booked.able, ?_, holds⟩
    · rw [same, booked.saved]
    · rw [same]
      exact booked.asked
  obtain stuck | ⟨c, hc, entered⟩ := (o.deployer registry).journaled.stuck_or_enters
  · obtain ⟨f, e, failed⟩ := stuck w.environment
    have same := congrArg (fun d => d.surroundings.journal)
      (Deployer.deploy_of_stuck failed o.model o.config o.timeout o.moments)
    rw [show (o.record registry w).surroundings.journal = w.journal from same] at journal
    simp at journal
  · have config : (o.record registry w).config = o.named :=
      (o.deployer registry).journaled.config_of_deploy o.model o.config o.timeout o.moments w (entered _)
    rw [config] at journal concern
    refine ⟨kept ++ [o], booked.ordered.append (.refl _), ?_, ?_, ?_, holds⟩
    · rw [journal, List.append_cons, savedOf_append, savedOf_append, savedOf_asked, booked.saved]
      simp [savedOf, Order.saved, Order.handle, Order.version]
    · intro k hk
      rcases List.mem_append.mp hk with hk | hk
      · exact booked.able k hk
      · obtain rfl := List.mem_singleton.mp hk
        exact ⟨c, hc⟩
    · intro r hr
      rw [journal] at hr
      rcases List.mem_append.mp hr with hr | hr
      · obtain ⟨k, hk, about⟩ := booked.asked r hr
        exact ⟨k, List.mem_append_left _ hk, about⟩
      · simp only [List.mem_cons, reduceCtorEq, false_or, List.mem_map, Event.asked.injEq, exists_eq_right] at hr
        exact ⟨o, List.mem_append_right _ (List.mem_singleton_self o), concern r hr⟩

theorem Booked.recordAll (keeping : registry.Keeping Deployer.artifactName Holds) (booked : Booked Holds [] [] w)
    (orders : List (Order σ)) : ∃ kept, Booked Holds orders kept (Order.recordAll registry orders w) := by
  induction orders using List.reverseRecOn with
  | nil => exact ⟨[], booked⟩
  | append_singleton before o ih =>
    obtain ⟨kept, booked⟩ := ih
    have step := booked.record keeping o
    rwa [Order.recordAll, List.foldl_append]

theorem Booked.find (keeping : registry.Keeping Deployer.artifactName Holds) (booked : Booked Holds orders kept w)
    (o : Order σ) {version : String} {h : Service}
    (found : (o.deployer registry).find version w.bare.world = .ok h) :
    ∃ k ∈ kept, k.version = version ∧
      h.config.endpointName = EndpointConfig.versionedName k.config.endpointName version := by
  have written : ∀ s ∈ savedOf w.journal, ∃ g : Service, s.payload = g.toJson.sorted := by
    intro s hs
    rw [booked.saved] at hs
    obtain ⟨k, -, rfl⟩ := List.mem_map.mp hs
    exact ⟨k.handle, rfl⟩
  obtain ⟨s, hs, rfl, carries⟩ := carried_of_find keeping booked.holds written
    (show (o.deployer registry).journaled.find version w.world = .ok h from found)
  rw [show savedOf w.world.2 = kept.map Order.saved from booked.saved] at hs
  obtain ⟨k, hk, rfl⟩ := List.mem_map.mp hs
  exact ⟨k, hk, rfl, carries.endpointName_eq (carries_sorted k.handle)⟩

theorem Booked.allotted (keeping : registry.Keeping Deployer.artifactName Holds) (booked : Booked Holds orders kept w)
    (distinct : (savedOf w.journal).Pairwise fun s t => s.version ≠ t.version) :
    Allotted registry orders kept w where
  ordered := booked.ordered
  saved := booked.saved
  distinct := by
    rw [booked.saved, List.pairwise_map] at distinct
    refine distinct.imp fun {a b} other => ⟨other, fun same => other ?_⟩
    exact EndpointConfig.version_of_versionedName
      ((Deployer.length_versionOf a.model).trans (Deployer.length_versionOf b.model).symm) same
  able := booked.able
  asked := booked.asked
  found := fun o _ _ found => booked.find keeping o found

/-- **No two persisted models share an endpoint**, whoever deploys what through a registry that had nothing in it,
with whatever answers, also if a configuration that was renamed is used again. A model that agrees with a kept one
in the first eight characters is refused without a request, and nothing is saved. Keeping the journal that tells
changes nothing of what is done. -/
theorem Order.endpoints_distinct {registry : Registry ρ} {r : ρ} (fresh : registry.Fresh r) (platform : σ)
    (environment : Environment) (orders : List (Order σ)) :
    let start : Surroundings ((σ × ρ) × List Event) := ⟨((platform, r), []), environment⟩
    let w := recordAll registry orders start
    w.bare = placeAll registry orders start.bare ∧
      ∃ kept, Allotted registry orders kept w ∧
        ∀ k ∈ kept, ∀ next : Order σ, next.model.text.toList.take 8 = k.model.text.toList.take 8 →
          let o := next.record registry w
          o.surroundings.world = w.world ∧
            ∀ c, next.settings.credentials = .ok c → c.exportable →
              o.result = .error (.fault (.artifact (.alreadyExists (label Deployer.artifactName k.version)))) := by
  intro start w
  obtain ⟨Holds, keeping, nothing, exclusive⟩ := fresh.exclusive Deployer.artifactName
  have begun : Booked Holds ([] : List (Order σ)) [] start := ⟨.refl _, rfl, by simp, by simp [start, Surroundings.journal], nothing⟩
  obtain ⟨kept, booked⟩ := begun.recordAll keeping orders
  obtain ⟨distinct, refuses⟩ := exclusive _ _ booked.holds
  refine ⟨recordAll_bare registry orders start, kept, booked.allotted keeping distinct, ?_⟩
  intro k hk next agree
  have same : next.version = k.version := Deployer.versionOf_eq_iff.mpr agree
  have taken : registry.Refuses Deployer.artifactName next.version w.world.1.2 := by
    rw [same]
    exact refuses k.saved (by rw [booked.saved]; exact List.mem_map_of_mem hk)
  obtain stuck | ⟨c, -, entered⟩ := (next.deployer registry).journaled.stuck_or_enters
  · obtain ⟨f, e, failed⟩ := stuck w.environment
    have ended := Deployer.deploy_of_stuck failed next.model next.config next.timeout next.moments
    refine ⟨congrArg (fun o => o.surroundings.world) ended, fun c able exportable => ?_⟩
    have entered := Deployer.enter_of_exportable (d := (next.deployer registry).journaled) able exportable w.environment
    rw [failed] at entered
    simp at entered
  · have refused := (next.deployer registry).journaled.deploy_refused next.model next.config next.timeout next.moments w
      (entered _) (refuses_noting taken)
    rw [← same]
    exact ⟨congrArg (fun o => o.surroundings.world) refused, fun _ _ _ => congrArg Deployer.Deployed.result refused⟩

def Order.first : Order Bool where
  settings := { Settings.default with token := some "token", owner := some "owner" }
  api := Api.prompt
  clock := .wide 0
  model := zeroUuid
  config := .new "model" "repository"
  timeout := .ofSeconds 5
  moments := ⟨⟨0, 0⟩, ⟨0, 0⟩⟩

/-- The configuration of the first order is used again, as that left it. -/
theorem Order.endpoints_distinct_reused :
    let again : Order Bool := { first with config := first.named }
    let start : Surroundings ((Bool × Artifact.Memory) × List Event) := ⟨((false, .empty), []), .cleared⟩
    let w := recordAll .memory [first, again] start
    w.bare = placeAll .memory [first, again] start.bare ∧
      ∃ kept, Allotted .memory [first, again] kept w ∧
        ∀ k ∈ kept, ∀ next : Order Bool, next.model.text.toList.take 8 = k.model.text.toList.take 8 →
          let o := next.record .memory w
          o.surroundings.world = w.world ∧
            ∀ c, next.settings.credentials = .ok c → c.exportable →
              o.result = .error (.fault (.artifact (.alreadyExists (label Deployer.artifactName k.version)))) :=
  Order.endpoints_distinct .memory false .cleared _

end Deployment

end ModelDepot
