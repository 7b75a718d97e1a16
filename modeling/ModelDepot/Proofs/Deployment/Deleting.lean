import ModelDepot.Artifact.Memory
import ModelDepot.Proofs.Deployment.Journal
import ModelDepot.Proofs.Deployment.Starting
import ModelDepot.Proofs.Deployment.Stopping

/-! # Deleting an endpoint

A deletion stops the endpoint and then asks for its removal. It is given up only if the stop failed, was not
forced and the endpoint is not known to be missing. A deletion that succeeded can be repeated.
-/

namespace ModelDepot

namespace Deployment

namespace Session

variable {σ : Type} (s : Session σ) (x : Situation σ) (pace : Pace)

/-! ## Removal -/

end Session

/-! ## Platforms that know no endpoint -/

namespace Session

variable {σ : Type} (s : Session σ) (x : Situation σ) (pace : Pace)

end Session

/-! ## Deleting with a deployer -/

namespace Deployer

variable {ω : Type} (d : Deployer ω)

/-- What an operation on a handle puts down in a journal that is empty at first. -/
def events (o : Operation) (h : Service) (w : Surroundings ω) : List Event :=
  (d.journaled.apply o h ⟨(w.world, []), w.environment⟩).2.2.journal

variable {d} {c : Credentials}

end Deployer

def Api.vacant {σ : Type} : Api σ where
  answer r platform := (.error (.notFound r.call.endpoint), platform)

namespace Deployer

def prompt : Deployer (Bool × Artifact.Memory) :=
  .between { Settings.default with token := some "token", owner := some "owner" } .prompt .memory (.wide 0)

end Deployer

end Deployment

end ModelDepot
