import ModelDepot.Proofs.Artifact.Folder
import ModelDepot.Proofs.Deployment.Journal
import ModelDepot.Proofs.Deployment.Payloads
import ModelDepot.Proofs.Deployment.Starting

/-! # One endpoint for one handle

The endpoint that a deployment creates is named in the payload that was saved before, and every request for
the handle is about that endpoint, in the namespace that the payload says. So whoever reads the payload
finds what is being paid for.
-/

namespace ModelDepot

open Artifact (Saved)

namespace Deployment

/-! ## What is to be shown -/

/-- A request is about the endpoint of a configuration, in the namespace that it says, or else in that of
the credentials that are set. -/
structure Request.Concerns (r : Request) (settings : Settings) (config : EndpointConfig) : Prop where
  credentials : settings.credentials = .ok r.credentials
  endpoint : r.call.endpoint = config.endpointName
  owner : r.owner = config.owner.getD r.credentials.owner

/-- Among some events a handle with a configuration was saved under a version. -/
def KeptAs (events : List Event) (version : String) (config : EndpointConfig) : Prop :=
  ∃ payload, Event.saved Deployer.artifactName version payload ∈ events ∧ Carries payload config

variable {ω : Type}

/-- What an action may do. A deployment sends requests only about the endpoint that it has saved a handle
of, and an operation only about the endpoint of its handle, which was saved when the handle was new. -/
def Deployer.Tracked (d : Deployer (ω × List Event)) (x : Desk (ω × List Event)) : Action → Prop
  | .deploy model config timeout moments =>
    let o := d.deploy model config timeout moments x.surroundings
    (∃ events, o.surroundings.journal = x.surroundings.journal ++ events ∧
        ∀ before r after, events = before ++ .asked r :: after →
          r.Concerns d.settings o.config ∧ KeptAs before (versionOf model) o.config) ∧
      ∀ h, o.result = .ok h → (Service.new model o.config moments.made).SameDeployment h
  | .find version =>
    ∀ h, d.find version x.surroundings.world = .ok h → KeptAs x.surroundings.journal version h.config
  | .operate n operation =>
    ∀ version h, x.held[n]? = some (version, h) →
      let o := d.apply operation h x.surroundings
      KeptAs x.surroundings.journal version h.config ∧ h.SameDeployment o.2.1 ∧
        ∃ requests : List Request, o.2.2.journal = x.surroundings.journal ++ requests.map .asked ∧
          ∀ r ∈ requests, r.Concerns d.settings h.config

variable {σ ρ : Type} {settings : Settings} {api : Api σ} {registry : Registry ρ} {clock : Clock}

/-! ## The deployer -/

/-- The deployer between a platform and a registry, keeping a journal. -/
abbrev Deployer.recorder (settings : Settings) (api : Api σ) (registry : Registry ρ) (clock : Clock) :
    Deployer ((σ × ρ) × List Event) :=
  (Deployer.between settings api registry clock).journaled

theorem Deployer.recorder_registry :
    (recorder settings api registry clock).registry = registry.beside.noting .saved := rfl

open Deployer (recorder)

/-! ## Requests only -/

/-- Between two worlds nothing happened but requests about the endpoint of a configuration. -/
structure OnlyAsked (settings : Settings) (config : EndpointConfig) (w w' : (σ × ρ) × List Event) : Prop where
  registry : w'.1.2 = w.1.2
  journal : ∃ requests : List Request, w'.2 = w.2 ++ requests.map .asked ∧ ∀ r ∈ requests, r.Concerns settings config

theorem OnlyAsked.refl (config : EndpointConfig) (w : (σ × ρ) × List Event) : OnlyAsked settings config w w :=
  ⟨rfl, [], by simp, by simp⟩

theorem agree_onlyAsked {c : Credentials} (hc : settings.credentials = .ok c) (h : Service)
    (w : (σ × ρ) × List Event) :
    let s := (recorder settings api registry clock).session c
    Session.Agree s s h fun a b => a = b ∧ OnlyAsked settings h.config w a := by
  intro s now call a b named same
  obtain ⟨rfl, unchanged, requests, noted, concern⟩ := same
  refine ⟨rfl, rfl, unchanged, requests ++ [s.request h now call], ?_, ?_⟩
  · rw [List.map_append, ← List.append_assoc, ← noted]
    rfl
  · intro r hr
    obtain hr | hr := List.mem_append.mp hr
    · exact concern r hr
    · obtain rfl := List.mem_singleton.mp hr
      exact ⟨hc, named, rfl⟩

theorem operation_onlyAsked {c : Credentials} (hc : settings.credentials = .ok c) (o : Operation) {h : Service}
    {w : (σ × ρ) × List Event} {result : Except Failure Unit} {x : Situation ((σ × ρ) × List Event)}
    (done : o.ask (recorder settings api registry clock).pace
      ((recorder settings api registry clock).session c) ⟨h, w, ⟨0⟩⟩ = (result, x)) :
    h.SameDeployment x.service ∧ OnlyAsked settings h.config w x.platform := by
  have begun : Session.Along h (fun a b => a = b ∧ OnlyAsked settings h.config w a) ⟨h, w, ⟨0⟩⟩ ⟨h, w, ⟨0⟩⟩ :=
    ⟨rfl, rfl, ⟨rfl, .refl h.config w⟩, .refl h⟩
  obtain ⟨-, along⟩ := (agree_onlyAsked hc h w).operation begun o
    (recorder settings api registry clock).pace
  rw [done] at along
  exact ⟨along.same, along.platform.2⟩

theorem apply_onlyAsked (o : Operation) {h h' : Service} {w w' : Surroundings ((σ × ρ) × List Event)}
    {result : Except Failure Unit}
    (done : (recorder settings api registry clock).apply o h w = (result, h', w')) :
    h.SameDeployment h' ∧ OnlyAsked settings h.config w.world w'.world := by
  obtain stuck | ⟨c, hc, entered⟩ := (recorder settings api registry clock).stuck_or_enters
  · obtain ⟨f, e, failed⟩ := stuck w.environment
    rw [Deployer.apply_of_stuck failed] at done
    simp only [Prod.mk.injEq] at done
    obtain ⟨-, rfl, rfl⟩ := done
    exact ⟨.refl h, .refl h.config w.world⟩
  · rw [Deployer.apply_eq] at done
    unfold Deployer.operate at done
    simp only [entered, Prod.mk.injEq] at done
    obtain ⟨-, rfl, rfl⟩ := done
    exact operation_onlyAsked hc o rfl

/-! ## What a deployment notes -/

/-- The handles that were saved among some events. -/
def savedOf (events : List Event) : List Saved :=
  events.filterMap fun e =>
    match e with
    | .saved name version payload => if name = Deployer.artifactName then some ⟨version, payload⟩ else none
    | .asked _ => none

theorem savedOf_append (events more : List Event) : savedOf (events ++ more) = savedOf events ++ savedOf more :=
  List.filterMap_append

theorem savedOf_asked (requests : List Request) : savedOf (requests.map .asked) = [] := by
  simp [savedOf, List.filterMap_map]

theorem mem_savedOf {events : List Event} {s : Saved} (h : s ∈ savedOf events) :
    Event.saved Deployer.artifactName s.version s.payload ∈ events := by
  obtain ⟨e, he, found⟩ := List.mem_filterMap.mp h
  cases e with
  | asked r => simp at found
  | saved name version payload =>
    by_cases same : name = Deployer.artifactName
    · simp only [same, if_true, Option.some.injEq] at found
      rwa [← found, ← same]
    · simp [same] at found

variable {Holds : List Saved → ρ → Prop}

theorem OnlyAsked.holds {config : EndpointConfig} {w w' : (σ × ρ) × List Event} (asked : OnlyAsked settings config w w')
    (holds : Holds (savedOf w.2) w.1.2) : Holds (savedOf w'.2) w'.1.2 := by
  obtain ⟨requests, noted, -⟩ := asked.journal
  rw [noted, savedOf_append, savedOf_asked, List.append_nil, asked.registry]
  exact holds

theorem save_accepted {name version : String} {payload : Json} {options : Artifact.SaveOptions} {now : Timestamp}
    {w : (σ × ρ) × List Event} {v : Artifact.Version} {r : ρ}
    (h : registry.save name version payload options now w.1.2 = (.ok v, r)) :
    (registry.beside.noting Event.saved).save name version payload options now w =
      (.ok v, ((w.1.1, r), w.2 ++ [.saved name version payload])) := by
  simp only [Registry.noting, Registry.beside, h]

theorem save_refused {name version : String} {payload : Json} {options : Artifact.SaveOptions} {now : Timestamp}
    {w : (σ × ρ) × List Event} {e : Artifact.Error} {r : ρ}
    (h : registry.save name version payload options now w.1.2 = (.error e, r)) :
    (registry.beside.noting Event.saved).save name version payload options now w =
      (.error e, ((w.1.1, r), w.2)) := by
  simp only [Registry.noting, Registry.beside, h]

theorem load_beside (name version : String) (w : (σ × ρ) × List Event) :
    (registry.beside.noting Event.saved).load name version w = registry.load name version w.1.2 := rfl

theorem keep_noted (keeping : registry.Keeping Deployer.artifactName Holds) {version : String} {h : Service}
    {now : Timestamp} {w w' : (σ × ρ) × List Event} {result : Except Artifact.Error Unit}
    (holds : Holds (savedOf w.2) w.1.2)
    (kept : (recorder settings api registry clock).keep version h now w = (result, w')) :
    Holds (savedOf w'.2) w'.1.2 ∧
      (w'.2 = w.2 ∧ (∃ e, result = .error e) ∨
        w'.2 = w.2 ++ [.saved Deployer.artifactName version h.toJson.sorted]) := by
  unfold Deployer.keep at kept
  rw [Deployer.recorder_registry] at kept
  cases saved : registry.save Deployer.artifactName version h.toJson.sorted .deployment now w.1.2 with
  | mk answer r =>
    cases answer with
    | error e =>
      simp only [save_refused saved] at kept
      obtain ⟨rfl, rfl⟩ := Prod.mk.inj kept
      exact ⟨keeping.refused holds saved, .inl ⟨rfl, e, rfl⟩⟩
    | ok v =>
      simp only [save_accepted saved] at kept
      obtain ⟨-, rfl⟩ := Prod.mk.inj kept
      have logged := keeping.logged version [(Deployer.artifactName, h.toJson.sorted)] (keeping.accepted holds saved)
      have journal : savedOf (w.2 ++ [.saved Deployer.artifactName version h.toJson.sorted]) =
          savedOf w.2 ++ [⟨version, h.toJson.sorted⟩] := savedOf_append _ _
      rw [← journal] at logged
      exact ⟨logged, .inr rfl⟩

theorem ok_of_map {α β ε : Type} {result : Except ε α} {a b : β} (h : (result.map fun _ => a) = .ok b) : b = a := by
  cases result with
  | error e => simp [Except.map] at h
  | ok x => exact (Except.ok.inj h).symm

/-- A deployment fails before anything is saved or asked, or it saves the new handle first and then asks
about its endpoint only. -/
theorem deploy_noted (keeping : registry.Keeping Deployer.artifactName Holds) {model : Uuid}
    {config : EndpointConfig} {timeout : Span} {moments : Deployer.Moments}
    {w : Surroundings ((σ × ρ) × List Event)} {o : Deployer.Deployed ((σ × ρ) × List Event)}
    (holds : Holds (savedOf w.journal) w.world.1.2)
    (deployed : (recorder settings api registry clock).deploy model config timeout moments w = o) :
    Holds (savedOf o.surroundings.journal) o.surroundings.world.1.2 ∧
      (o.surroundings.journal = w.journal ∧ (∃ e, o.result = .error e) ∨
        ∃ requests : List Request,
          o.surroundings.journal =
              w.journal ++ .saved Deployer.artifactName (Deployer.versionOf model)
                (Service.new model o.config moments.made).toJson.sorted :: requests.map .asked ∧
            (∀ r ∈ requests, r.Concerns settings o.config) ∧
              ∀ h, o.result = .ok h → (Service.new model o.config moments.made).SameDeployment h) := by
  obtain stuck | ⟨c, hc, entered⟩ := (recorder settings api registry clock).stuck_or_enters
  · obtain ⟨f, e, failed⟩ := stuck w.environment
    rw [Deployer.deploy_of_stuck failed] at deployed
    subst deployed
    exact ⟨holds, .inl ⟨rfl, _, rfl⟩⟩
  · unfold Deployer.deploy at deployed
    simp only [entered] at deployed
    generalize ({ config with endpointName := _ } : EndpointConfig) = named at deployed
    cases hk : (recorder settings api registry clock).keep (Deployer.versionOf model)
        (Service.new model named moments.made) moments.kept w.world with
    | mk result world =>
      obtain ⟨holds', noted⟩ := keep_noted keeping holds hk
      simp only [hk] at deployed
      cases result with
      | error e =>
        subst deployed
        refine ⟨holds', noted.imp (fun same => ⟨same.1, _, rfl⟩) fun saved => ⟨[], saved, ?_, ?_⟩⟩
        · simp
        · simp
      | ok =>
        have saved := noted.resolve_left (by simp)
        simp only at deployed
        subst deployed
        obtain ⟨same, asked⟩ := operation_onlyAsked hc (.start timeout) rfl
        obtain ⟨requests, journal, concern⟩ := asked.journal
        refine ⟨asked.holds holds', .inr ⟨requests, ?_, concern, ?_⟩⟩
        · exact journal.trans (by rw [saved]; simp [Surroundings.journal])
        · intro h done
          rw [ok_of_map done]
          exact same

/-! ## Runs -/

/-- What a run keeps: the registry stands for the handles that were saved, every payload is that of a
handle, and every handle in hand was saved under its version. -/
structure Sound (Holds : List Saved → ρ → Prop) (x : Desk ((σ × ρ) × List Event)) : Prop where
  registry : Holds (savedOf x.surroundings.journal) x.surroundings.world.1.2
  payload : ∀ name version payload, .saved name version payload ∈ x.surroundings.journal →
    ∃ h : Service, payload = h.toJson.sorted
  held : ∀ version h, (version, h) ∈ x.held → KeptAs x.surroundings.journal version h.config

variable {x : Desk ((σ × ρ) × List Event)}

theorem KeptAs.append {events : List Event} {version : String} {config : EndpointConfig}
    (kept : KeptAs events version config) (more : List Event) : KeptAs (events ++ more) version config := by
  obtain ⟨payload, mem, carries⟩ := kept
  exact ⟨payload, List.mem_append_left _ mem, carries⟩

theorem carried_of_find (keeping : registry.Keeping Deployer.artifactName Holds) {w : (σ × ρ) × List Event}
    (holds : Holds (savedOf w.2) w.1.2) (written : ∀ s ∈ savedOf w.2, ∃ g : Service, s.payload = g.toJson.sorted)
    {version : String} {h : Service} (found : (recorder settings api registry clock).find version w = .ok h) :
    ∃ s ∈ savedOf w.2, s.version = version ∧ Carries s.payload h.config := by
  unfold Deployer.find at found
  rw [Deployer.recorder_registry, load_beside] at found
  cases loaded : registry.load Deployer.artifactName version w.1.2 with
  | error e => simp [loaded] at found
  | ok a =>
    obtain ⟨s, hs, rfl, copied⟩ := keeping.loaded holds loaded
    obtain ⟨g, payload⟩ := written s hs
    have carries := carries_sorted g
    rw [← payload] at carries
    have tidy : s.payload.Tidy := payload ▸ Json.tidy_sorted _
    simp only [loaded] at found
    split at found
    · next h' read =>
      obtain rfl := Except.ok.inj found
      obtain ⟨name, owner⟩ := Service.of_decoder read (carries.copied tidy copied)
      exact ⟨s, hs, rfl, carries.of_eq name owner⟩
    · simp at found

theorem kept_of_find (keeping : registry.Keeping Deployer.artifactName Holds) (sound : Sound Holds x)
    {version : String} {h : Service}
    (found : (recorder settings api registry clock).find version x.surroundings.world = .ok h) :
    KeptAs x.surroundings.journal version h.config := by
  have written : ∀ s ∈ savedOf x.surroundings.journal, ∃ g : Service, s.payload = g.toJson.sorted :=
    fun s hs => sound.payload _ _ _ (mem_savedOf hs)
  obtain ⟨s, hs, rfl, carries⟩ := carried_of_find keeping sound.registry written found
  exact ⟨s.payload, mem_savedOf hs, carries⟩

theorem tracked_deploy (keeping : registry.Keeping Deployer.artifactName Holds) (sound : Sound Holds x)
    (model : Uuid) (config : EndpointConfig) (timeout : Span) (moments : Deployer.Moments) :
    (recorder settings api registry clock).Tracked x (.deploy model config timeout moments) := by
  simp only [Deployer.Tracked]
  generalize deployed : (recorder settings api registry clock).deploy model config timeout
    moments x.surroundings = o
  obtain ⟨-, ⟨same, e, failed⟩ | ⟨requests, journal, concern, kept⟩⟩ := deploy_noted keeping sound.registry deployed
  · refine ⟨⟨[], by simpa using same, ?_⟩, ?_⟩
    · intro before r after split
      simp at split
    · intro h done
      exact absurd (failed.symm.trans done) (by simp)
  · refine ⟨⟨_, journal, ?_⟩, kept⟩
    intro before r after split
    cases before with
    | nil => simp at split
    | cons first before =>
      obtain ⟨rfl, rest⟩ := List.cons.inj split
      have asked : Event.asked r ∈ requests.map Event.asked := by
        rw [rest]
        exact List.mem_append_right before List.mem_cons_self
      obtain ⟨r', hr, same⟩ := List.mem_map.mp asked
      obtain rfl := Event.asked.inj same
      exact ⟨concern r' hr, _, List.mem_cons_self, carries_sorted (Service.new model o.config moments.made)⟩

theorem tracked_operate (sound : Sound Holds x) (n : Nat) (operation : Operation) :
    (recorder settings api registry clock).Tracked x (.operate n operation) := by
  intro version h held o
  obtain ⟨same, -, journal⟩ := apply_onlyAsked operation rfl
  exact ⟨sound.held version h (List.mem_of_getElem? held), same, journal⟩

theorem tracked_of_sound (keeping : registry.Keeping Deployer.artifactName Holds) (sound : Sound Holds x)
    (a : Action) : (recorder settings api registry clock).Tracked x a := by
  cases a with
  | deploy model config timeout moments => exact tracked_deploy keeping sound model config timeout moments
  | find version => exact fun h found => kept_of_find keeping sound found
  | operate n operation => exact tracked_operate sound n operation

theorem Sound.extend (sound : Sound Holds x) {w : Surroundings ((σ × ρ) × List Event)} {events : List Event}
    (registry : Holds (savedOf w.journal) w.world.1.2) (journal : w.journal = x.surroundings.journal ++ events)
    (payload : ∀ name version payload, .saved name version payload ∈ events → ∃ h : Service, payload = h.toJson.sorted) :
    Sound Holds ⟨w, x.held⟩ where
  registry := registry
  payload := by
    intro name version payload' mem
    rw [show (Desk.mk w x.held).surroundings.journal = w.journal from rfl, journal] at mem
    obtain mem | mem := List.mem_append.mp mem
    · exact sound.payload name version payload' mem
    · exact payload name version payload' mem
  held := by
    intro version h mem
    rw [show (Desk.mk w x.held).surroundings.journal = w.journal from rfl, journal]
    exact (sound.held version h mem).append events

theorem Sound.asked (sound : Sound Holds x) {config : EndpointConfig} {w : Surroundings ((σ × ρ) × List Event)}
    (asked : OnlyAsked settings config x.surroundings.world w.world) : Sound Holds ⟨w, x.held⟩ := by
  obtain ⟨requests, journal, -⟩ := asked.journal
  refine sound.extend (asked.holds sound.registry) journal ?_
  intro name version payload mem
  simp at mem

theorem Sound.hold (sound : Sound Holds x) {version : String} {h : Service}
    (kept : KeptAs x.surroundings.journal version h.config) :
    Sound Holds { x with held := x.held ++ [(version, h)] } where
  registry := sound.registry
  payload := sound.payload
  held := by
    intro version' h' mem
    obtain mem | mem := List.mem_append.mp mem
    · exact sound.held version' h' mem
    · obtain ⟨rfl, rfl⟩ := Prod.mk.inj (List.mem_singleton.mp mem)
      exact kept

theorem sound_deploy (keeping : registry.Keeping Deployer.artifactName Holds) (sound : Sound Holds x)
    (model : Uuid) (config : EndpointConfig) (timeout : Span) (moments : Deployer.Moments) :
    Sound Holds
      ((recorder settings api registry clock).perform x (.deploy model config timeout moments)) := by
  rw [Deployer.perform]
  generalize deployed : (recorder settings api registry clock).deploy model config timeout
    moments x.surroundings = o
  obtain ⟨holds, ⟨same, e, failed⟩ | ⟨requests, journal, -, kept⟩⟩ := deploy_noted keeping sound.registry deployed
  · simp only [failed]
    refine sound.extend holds (same.trans (List.append_nil _).symm) ?_
    intro name version payload mem
    simp at mem
  · have extended : Sound Holds ⟨o.surroundings, x.held⟩ := by
      refine sound.extend holds journal ?_
      intro name version payload mem
      obtain first | mem := List.mem_cons.mp mem
      · exact ⟨_, (Event.saved.inj first).2.2⟩
      · simp at mem
    cases result : o.result with
    | error e => exact extended
    | ok h =>
      refine extended.hold ?_
      rw [(kept h result).config]
      refine ⟨_, ?_, carries_sorted (Service.new model o.config moments.made)⟩
      rw [show (Desk.mk o.surroundings x.held).surroundings.journal = o.surroundings.journal from rfl, journal]
      exact List.mem_append_right _ List.mem_cons_self

theorem sound_operate (sound : Sound Holds x) (n : Nat) (operation : Operation) :
    Sound Holds ((recorder settings api registry clock).perform x (.operate n operation)) := by
  rw [Deployer.perform]
  split
  · next version h held =>
    cases done : (recorder settings api registry clock).apply operation h x.surroundings with
    | mk result after =>
      obtain ⟨h', w⟩ := after
      obtain ⟨same, asked⟩ := apply_onlyAsked operation done
      have sound' := sound.asked asked
      refine sound'.hold ?_
      have kept := sound'.held version h (List.mem_of_getElem? held)
      rwa [same.config]
  · exact sound

/-- **Every action keeps the desk sound.** -/
theorem sound_perform (keeping : registry.Keeping Deployer.artifactName Holds) (sound : Sound Holds x) (a : Action) :
    Sound Holds ((recorder settings api registry clock).perform x a) := by
  cases a with
  | deploy model config timeout moments => exact sound_deploy keeping sound model config timeout moments
  | find version =>
    rw [Deployer.perform]
    split
    · next h found => exact sound.hold (kept_of_find keeping sound found)
    · exact sound
  | operate n operation => exact sound_operate sound n operation

theorem sound_run (keeping : registry.Keeping Deployer.artifactName Holds) (sound : Sound Holds x)
    (actions : List Action) :
    Sound Holds ((recorder settings api registry clock).run x actions) := by
  induction actions generalizing x with
  | nil => exact sound
  | cons a rest ih => exact ih (sound_perform keeping sound a)

/-- A desk with nothing on it, before anything has been noted. -/
def Desk.opened (platform : σ) (r : ρ) (environment : Environment) : Desk ((σ × ρ) × List Event) :=
  ⟨⟨((platform, r), []), environment⟩, []⟩

/-- **No endpoint is ever asked about that cannot be found.** Whatever has been deployed, found and operated
on, with a registry that had nothing in it, what is done next is tracked; and keeping the journal that tells
changes nothing of what is done. -/
theorem Deployer.run_tracked (settings : Settings) (api : Api σ) (clock : Clock) (platform : σ) {r : ρ}
    (fresh : registry.Fresh r) (environment : Environment) (before : List Action) (next : Action) :
    let d := Deployer.between settings api registry clock
    let x : Desk ((σ × ρ) × List Event) := .opened platform r environment
    (d.journaled.run x before).bare = d.run x.bare before ∧ d.journaled.Tracked (d.journaled.run x before) next := by
  intro d x
  obtain ⟨Holds, keeping, nothing⟩ := fresh.keeping Deployer.artifactName
  have opened : Sound Holds x := ⟨nothing, by simp [x, Desk.opened, Surroundings.journal], by simp [x, Desk.opened]⟩
  exact ⟨d.run_journaled x before, tracked_of_sound keeping (sound_run keeping opened before) next⟩

def Action.first : Action :=
  .deploy zeroUuid (.new "model" "repository") (.ofSeconds 5) ⟨⟨0, 0⟩, ⟨0, 0⟩⟩

theorem Deployer.run_tracked_memory :
    let d := Deployer.between { Settings.default with token := some "token", owner := some "owner" } Api.prompt
      Registry.memory (.wide 0)
    let x : Desk ((Bool × Artifact.Memory) × List Event) := .opened false .empty .cleared
    (d.journaled.run x [.first]).bare = d.run x.bare [.first] ∧
      d.journaled.Tracked (d.journaled.run x [.first]) (.operate 0 (.stop (.ofSeconds 5) false)) :=
  Deployer.run_tracked _ _ _ _ .memory _ _ _

end Deployment

end ModelDepot
