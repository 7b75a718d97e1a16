import ModelDepot.Artifact.Memory
import ModelDepot.Proofs.Deployment.Journal
import ModelDepot.Proofs.Deployment.Starting

/-! # The environment of a call

While a call asks the platform the credentials are set in the environment of the process, and when it has
returned neither variable is. Without credentials a call does nothing at all, and with credentials that the
environment cannot hold it panics at once.
-/

namespace ModelDepot

namespace Deployment

/-! ## What the settings provide -/

/-- The settings have a token and an owner, and neither is blank. -/
structure Settings.Provide (s : Settings) (token owner : String) : Prop where
  hasToken : s.token = some token
  hasOwner : s.owner = some owner
  token_notBlank : Text.allBlank token = false
  owner_notBlank : Text.allBlank owner = false

theorem Settings.Provide.credentials {s : Settings} {token owner : String} (provide : s.Provide token owner) :
    ∃ c, s.credentials = .ok c ∧ c.token = token ∧ c.owner = owner := by
  refine ⟨⟨token, owner, provide.token_notBlank, provide.owner_notBlank⟩, ?_, rfl, rfl⟩
  simp [Settings.credentials, Credentials.ofSettings, Credentials.of, provide.hasToken, provide.hasOwner,
    provide.token_notBlank, provide.owner_notBlank]

theorem Settings.provide_of_credentials {s : Settings} {c : Credentials} (able : s.credentials = .ok c) :
    s.Provide c.token c.owner := by
  unfold credentials Credentials.ofSettings at able
  split at able
  · simp at able
  · simp at able
  · next token owner hasToken hasOwner =>
    unfold Credentials.of at able
    split at able
    · next token_notBlank =>
      split at able
      · next owner_notBlank =>
        obtain rfl := Except.ok.inj able
        exact ⟨hasToken, hasOwner, token_notBlank, owner_notBlank⟩
      · simp at able
    · simp at able

/-! ## The requests of an operation -/

namespace Session

variable {σ : Type} (s : Session σ)

theorem request_of_mem {pace : Span → Pace} (o : Operation) (x : Situation σ) {r : Request}
    (sent : r ∈ s.requests (o.ask pace) x) : ∃ clock call, r = s.request x.service clock call := by
  have agree : Agree (s.noting id) (s.noting id) x.service fun a b =>
      a = b ∧ ∀ r ∈ a.2, ∃ clock call, r = s.request x.service clock call := by
    rintro clock call a b - ⟨rfl, before⟩
    refine ⟨rfl, rfl, fun r hr => ?_⟩
    obtain hr | hr := List.mem_append.mp hr
    · exact before r hr
    · exact ⟨clock, call, List.mem_singleton.mp hr⟩
  have begun : Along x.service (fun a b => a = b ∧ ∀ r ∈ a.2, ∃ clock call, r = s.request x.service clock call)
      (s.having x.platform [] x.service x.clock) (s.having x.platform [] x.service x.clock) :=
    ⟨rfl, rfl, ⟨rfl, by simp [having]⟩, .refl _⟩
  exact (agree.operation begun o pace).2.platform.2 r sent

end Session

/-! ## Calls -/

variable {ω : Type}

/-- The environment after a panic over a token or its owner: if the token is not to blame it is set already. -/
def Environment.halfway (token : String) (e : Environment) : Environment :=
  if holds token then { e with token := some token } else e

theorem Environment.halfway_of_not_exportable {c : Credentials} (unfit : c.exportable = false) (e : Environment) :
    (e.acquire c).2 = e.halfway c.token := by
  unfold acquire halfway
  by_cases token : holds c.token
  · have owner : ¬ holds c.owner := fun owner => by simp [Credentials.exportable, token, owner] at unfit
    simp only [if_pos token, if_neg owner]
  · simp only [if_neg token]

/-- Between two moments every request was sent with a token and its owner in the environment, and at the second
one neither variable is set. -/
structure Scoped (token owner : String) (w w' : Surroundings (ω × List Event)) : Prop where
  exported : ∃ events, w'.journal = w.journal ++ events ∧
    ∀ r, .asked r ∈ events → r.environment = ⟨some token, some owner⟩
  cleared : w'.environment = ⟨none, none⟩

namespace Deployer

variable {d : Deployer ω} {c : Credentials}

theorem exported_operation (o : Operation) (h : Service) (w : ω × List Event) :
    ∃ events, (o.ask d.pace (d.journaled.session c) ⟨h, w, ⟨0⟩⟩).2.platform.2 = w.2 ++ events ∧
      ∀ r, .asked r ∈ events → r.environment = ⟨some c.token, some c.owner⟩ := by
  refine ⟨_, d.operation_journal o c h w, fun r noted => ?_⟩
  obtain ⟨r', sent, same⟩ := List.mem_map.mp noted
  obtain rfl := Event.asked.inj same
  obtain ⟨clock, call, rfl⟩ := (d.session c).request_of_mem o _ sent
  rfl

theorem keep_silent (version : String) (h : Service) (now : Timestamp) (w : ω × List Event) :
    ∃ events, (d.journaled.keep version h now w).2.2 = w.2 ++ events ∧ ∀ r, .asked r ∉ events := by
  simp only [keep, journaled, Registry.noting]
  cases d.registry.save artifactName version h.toJson.sorted .deployment now w.1 with
  | mk result r =>
    cases result with
    | error e => exact ⟨[], (List.append_nil _).symm, by simp⟩
    | ok v => exact ⟨[.saved artifactName version h.toJson.sorted], rfl, by simp⟩

theorem apply_scoped (o : Operation) (h : Service) (w : Surroundings (ω × List Event))
    (entered : d.journaled.enter w.environment = (.ok c, .exporting c)) :
    Scoped c.token c.owner w (d.journaled.apply o h w).2.2 := by
  rw [apply_eq]
  unfold operate
  rw [entered]
  exact ⟨exported_operation o h w.world, rfl⟩

theorem deploy_scoped (model : Uuid) (config : EndpointConfig) (timeout : Span) (moments : Moments)
    (w : Surroundings (ω × List Event)) (entered : d.journaled.enter w.environment = (.ok c, .exporting c)) :
    Scoped c.token c.owner w (d.journaled.deploy model config timeout moments w).surroundings := by
  unfold deploy
  rw [entered]
  simp only
  generalize Service.new model _ _ = h
  obtain ⟨before, kept, silent⟩ := d.keep_silent (versionOf model) h moments.kept w.world
  cases hk : d.journaled.keep (versionOf model) h moments.kept w.world with
  | mk result world =>
    rw [hk] at kept
    cases result with
    | error e => exact ⟨⟨before, kept, fun r asked => absurd asked (silent r)⟩, rfl⟩
    | ok =>
      obtain ⟨events, journal, exported⟩ := exported_operation (d := d) (c := c) (.start timeout) h world
      refine ⟨⟨before ++ events, ?_, fun r asked => ?_⟩, rfl⟩
      · rw [← List.append_assoc, ← show world.2 = w.journal ++ before from kept]
        exact journal
      · exact exported r ((List.mem_append.mp asked).resolve_left (silent r))

/-- **The environment is set for the requests of a call and for nothing else.** If the token or the owner is
missing or blank, every call is refused and leaves all as it was: nothing is asked or saved, and configuration,
handle and environment are the same. Else, if the environment can hold both, all that a call asks is asked with both
in the environment, and when it has ended, however, neither is there. If it cannot, no call returns: every one panics
at once, and nothing is asked, saved or changed but the token's variable, which is set if it is the owner that cannot
be held. The journal that tells changes nothing of what is done. -/
theorem call_scoped (d : Deployer ω) :
    (∀ x actions, (d.journaled.run x actions).bare = d.run x.bare actions) ∧
    ((∀ token owner, ¬ d.settings.Provide token owner) → ∃ fault,
      (∀ model config timeout moments w,
        d.journaled.deploy model config timeout moments w = ⟨.error (.fault (.config fault)), config, w⟩) ∧
      ∀ o h w, d.journaled.apply o h w = (.error (.fault (.config fault)), h, w)) ∧
    ∀ token owner, d.settings.Provide token owner →
      (Environment.holds token → Environment.holds owner →
        (∀ model config timeout moments w,
          Scoped token owner w (d.journaled.deploy model config timeout moments w).surroundings) ∧
        ∀ o h w, Scoped token owner w (d.journaled.apply o h w).2.2) ∧
      (¬ (Environment.holds token ∧ Environment.holds owner) →
        (∀ model config timeout moments w, ∃ p, d.journaled.deploy model config timeout moments w =
          ⟨.error (.panic p), config, { w with environment := w.environment.halfway token }⟩) ∧
        ∀ o h w, ∃ p, d.journaled.apply o h w =
          (.error (.panic p), h, { w with environment := w.environment.halfway token })) := by
  refine ⟨d.run_journaled, fun lacking => ?_, fun token owner provide => ?_⟩
  · cases able : d.settings.credentials with
    | ok c => exact absurd (Settings.provide_of_credentials able) (lacking c.token c.owner)
    | error fault =>
      have failed (e : Environment) := enter_of_error (d := d.journaled) able e
      exact ⟨fault, fun model config timeout moments w => deploy_of_stuck (failed _) model config timeout moments,
        fun o h w => apply_of_stuck (failed _) o h⟩
  · obtain ⟨c, able, rfl, rfl⟩ := provide.credentials
    refine ⟨fun token owner => ?_, fun unfit => ?_⟩
    · have entered (e : Environment) :=
        enter_of_exportable (d := d.journaled) able (Bool.and_eq_true_iff.mpr ⟨token, owner⟩) e
      exact ⟨fun model config timeout moments w => deploy_scoped model config timeout moments w (entered _),
        fun o h w => apply_scoped o h w (entered _)⟩
    · have unfit : c.exportable = false := Bool.eq_false_iff.mpr fun fit => unfit (Bool.and_eq_true_iff.mp fit)
      have failed (e : Environment) : ∃ p, d.journaled.enter e = (.error (.panic p), e.halfway c.token) := by
        rw [← Environment.halfway_of_not_exportable unfit]
        exact enter_of_not_exportable able unfit e
      refine ⟨fun model config timeout moments w => ?_, fun o h w => ?_⟩
      · obtain ⟨p, panicked⟩ := failed w.environment
        exact ⟨p, deploy_of_stuck panicked model config timeout moments⟩
      · obtain ⟨p, panicked⟩ := failed w.environment
        exact ⟨p, apply_of_stuck panicked o h⟩

/-- A deployer that was told no owner. -/
def anonymous : Deployer (Bool × Artifact.Memory) :=
  .between { Settings.default with token := some "token" } .prompt .memory (.wide 0)

def named (owner : String) : Deployer (Bool × Artifact.Memory) :=
  { anonymous with settings := { anonymous.settings with owner := some owner } }

theorem call_scoped_named :
    let w : Surroundings ((Bool × Artifact.Memory) × List Event) :=
      ⟨((false, .empty), []), ⟨some "other", some "elsewhere"⟩⟩
    let h := Situation.fresh.service
    (∀ token owner, ¬ anonymous.settings.Provide token owner) ∧
      (∃ fault, anonymous.journaled.apply (.delete (.ofSeconds 5) true) h w = (.error (.fault (.config fault)), h, w)) ∧
      (named "owner").settings.Provide "token" "owner" ∧
      Scoped "token" "owner" w ((named "owner").journaled.deploy zeroUuid (.new "model" "repository") (.ofSeconds 5)
        ⟨⟨0, 0⟩, ⟨0, 0⟩⟩ w).surroundings ∧
      Scoped "token" "owner" w ((named "owner").journaled.apply (.delete (.ofSeconds 5) true) h w).2.2 ∧
      (named "own\x00er").settings.Provide "token" "own\x00er" ∧
      ∃ p, (named "own\x00er").journaled.apply (.delete (.ofSeconds 5) true) h w =
        (.error (.panic p), h, { w with environment := ⟨some "token", some "elsewhere"⟩ }) := by
  have lacking : ∀ token owner, ¬ anonymous.settings.Provide token owner := by
    rintro token owner ⟨-, hasOwner, -, -⟩
    simp [anonymous, between, Settings.default] at hasOwner
  have provide : (named "owner").settings.Provide "token" "owner" := ⟨rfl, rfl, by decide, by decide⟩
  have provide' : (named "own\x00er").settings.Provide "token" "own\x00er" := ⟨rfl, rfl, by decide, by decide⟩
  obtain ⟨fault, -, refused⟩ := (call_scoped anonymous).2.1 lacking
  obtain ⟨deployed, applied⟩ := ((call_scoped (named "owner")).2.2 _ _ provide).1 (by decide) (by decide)
  obtain ⟨-, panicked⟩ := ((call_scoped (named "own\x00er")).2.2 _ _ provide').2 (by decide)
  exact ⟨lacking, ⟨fault, refused _ _ _⟩, provide, deployed _ _ _ _ _, applied _ _ _, provide', panicked _ _ _⟩

end Deployer

end Deployment

end ModelDepot
