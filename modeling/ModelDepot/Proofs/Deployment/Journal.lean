import ModelDepot.Proofs.Deployment.Reports
import ModelDepot.Proofs.Deployment.Requests

/-! # The journal of a deployer

A deployer that keeps a journal notes which artifacts the registry accepted and what the platform was
asked, in the order in which it happened. Otherwise it does what it does without.
-/

namespace ModelDepot

namespace Deployment

/-- What is noted: an artifact was saved, or a request was sent. -/
inductive Event where
  | saved (name version : String) (payload : Json)
  | asked (request : Request)

end Deployment

/-- The same registry, keeping a note of every artifact that it accepts beside its own state. -/
def Registry.noting {ρ ε : Type} (note : String → String → Json → ε) (reg : Registry ρ) :
    Registry (ρ × List ε) where
  save name version payload options now w :=
    match reg.save name version payload options now w.1 with
    | (.ok v, r) => (.ok v, (r, w.2 ++ [note name version payload]))
    | (.error e, r) => (.error e, (r, w.2))
  log name version metadata w :=
    let (result, r) := reg.log name version metadata w.1
    (result, (r, w.2))
  load name version w := reg.load name version w.1
  versions name w := reg.versions name w.1

namespace Deployment

variable {ω : Type}

/-- What surroundings are without the journal. -/
def Surroundings.bare (w : Surroundings (ω × List Event)) : Surroundings ω := ⟨w.world.1, w.environment⟩

def Surroundings.journal (w : Surroundings (ω × List Event)) : List Event := w.world.2

@[inherit_doc Surroundings.bare]
def Desk.bare (x : Desk (ω × List Event)) : Desk ω := ⟨x.surroundings.bare, x.held⟩

namespace Deployer

variable (d : Deployer ω)

def journaled : Deployer (ω × List Event) :=
  { d with api := d.api.noting .asked, registry := d.registry.noting .saved }

/-! ## A journal changes nothing else -/

theorem alike_journaled : d.Alike d.journaled fun w noted => noted.1 = w where
  pace := rfl
  platform := Alike.platform_of_agree rfl fun c => (d.session c).agree_noting Event.asked
  save := by
    rintro a ⟨b, notes⟩ name version payload options now rfl
    simp only [journaled, Registry.noting]
    cases d.registry.save name version payload options now b with
    | mk result r => cases result <;> exact ⟨rfl, rfl⟩
  log := by
    rintro a ⟨b, notes⟩ name version metadata rfl
    exact ⟨rfl, rfl⟩
  load := by
    rintro a ⟨b, notes⟩ name version rfl
    rfl

theorem deploy_journaled (model : Uuid) (config : EndpointConfig) (timeout : Span) (moments : Moments)
    (w : Surroundings (ω × List Event)) :
    let x := d.journaled.deploy model config timeout moments w
    (⟨x.result, x.config, x.surroundings.bare⟩ : Deployed ω) = d.deploy model config timeout moments w.bare := by
  intro x
  have within : Within (fun w noted => noted.1 = w) w.bare w := ⟨rfl, rfl⟩
  obtain ⟨result, named, after⟩ := d.alike_journaled.deploy model config timeout moments within
  have bare : x.surroundings.bare = (d.deploy model config timeout moments w.bare).surroundings := by
    rw [Surroundings.bare, after.world, after.environment]
  rw [result, named, bare]

/-- **Keeping a journal changes nothing else**, whatever is done. -/
theorem run_journaled (x : Desk (ω × List Event)) (actions : List Action) :
    (d.journaled.run x actions).bare = d.run x.bare actions := by
  have facing : Facing (fun w noted => noted.1 = w) x.bare x := ⟨⟨rfl, rfl⟩, rfl⟩
  obtain ⟨-, after⟩ := d.alike_journaled.run facing actions
  rw [Desk.bare, Surroundings.bare, after.surroundings.world, after.surroundings.environment, after.held]

/-! ## What is noted -/

theorem operation_journal (o : Operation) (c : Credentials) (h : Service) (w : ω × List Event) :
    (o.ask d.pace (d.journaled.session c) ⟨h, w, ⟨0⟩⟩).2.platform.2 =
      w.2 ++ ((d.session c).requests (o.ask d.pace) ⟨h, w.1, ⟨0⟩⟩).map .asked := by
  have agree := (d.session c).agree_notes id Event.asked w.2 h
  have along : Session.Along h (fun a b => b = (a.1, w.2 ++ a.2.map Event.asked))
      ((d.session c).having w.1 [] h ⟨0⟩) ⟨h, w, ⟨0⟩⟩ :=
    ⟨rfl, rfl, Prod.ext rfl (by simp [Session.having]), .refl h⟩
  exact congrArg Prod.snd (agree.operation along o d.pace).2.platform

end Deployer

end Deployment

end ModelDepot
