import ModelDepot.Artifact.Registry
import ModelDepot.Deployment.Lifecycle
import ModelDepot.Deployment.Settings

/-! # The deployer

A deployer maps every model to one endpoint. The short form of the model's identity is both the
version under which the handle is kept and the end of the endpoint's name. While an operation asks
the platform, the credentials are set in the process environment; afterwards neither variable is, even
if the operation panicked. If they cannot be set, there is a panic before the operation begins.
-/

namespace ModelDepot

open Json (Members)

namespace Deployment

/-- A deployer: its settings, the platform and the registry that it works with, both of them parts of
one world, and the clock that it waits by. -/
structure Deployer (ω : Type) where
  settings : Settings
  api : Api ω
  registry : Registry ω
  clock : Clock

/-- What deployers change: the world that holds the platform and the registry, and the process
environment. -/
structure Surroundings (ω : Type) where
  world : ω
  environment : Environment

namespace Deployer

variable {ω : Type}

/-- A deployer for a platform and a registry that know nothing of each other. -/
def between {σ ρ : Type} (settings : Settings) (api : Api σ) (registry : Registry ρ) (clock : Clock) :
    Deployer (σ × ρ) :=
  ⟨settings, api.beside, registry.beside, clock⟩

/-- The name of this kind of deployer. -/
def name : String := "HuggingFace"

/-- The name of the artifact that handles are kept as. -/
def artifactName : String := "huggingface_service"

/-- The version under which the handle of a model is kept. -/
def versionOf (model : Uuid) : String := model.short

/-- The time that starting and stopping may take if nothing else is said. -/
def defaultTimeout : Span := .ofSeconds 300

/-- The pace of waits with a timeout. -/
def pace (d : Deployer ω) (timeout : Span) : Pace :=
  ⟨timeout, d.settings.pollInterval, d.clock⟩

/-- The platform as this deployer asks it with credentials, once they are set. -/
def session (d : Deployer ω) (c : Credentials) : Session ω := ⟨d.api, .exporting c, c⟩

/-- Sets the configured credentials in the process environment. -/
def enter (d : Deployer ω) (e : Environment) : Except Failure Credentials × Environment :=
  match d.settings.credentials with
  | .error fault => (.error (.fault (.config fault)), e)
  | .ok c =>
    match e.acquire c with
    | (.ok (), e) => (.ok c, e)
    | (.error p, e) => (.error (.panic p), e)

/-- Sets the credentials in the process environment, or clears them. -/
def prepare (d : Deployer ω) (enable : Bool) (w : Surroundings ω) :
    Except Failure Unit × Surroundings ω :=
  if enable then
    let (entered, environment) := d.enter w.environment
    (entered.map fun _ => (), { w with environment })
  else (.ok (), { w with environment := .cleared })

/-- Runs an operation on a handle with the configured credentials. -/
def operate (d : Deployer ω) (operation : Session ω → Situation ω → Outcome ω Failure Unit) (h : Service)
    (w : Surroundings ω) : Except Failure Unit × Service × Surroundings ω :=
  match d.enter w.environment with
  | (.error f, environment) => (.error f, h, { w with environment })
  | (.ok c, _) =>
    let (result, x) := operation (d.session c) ⟨h, w.world, ⟨0⟩⟩
    (result, x.service, ⟨x.platform, .cleared⟩)

def start (d : Deployer ω) (timeout : Span) (h : Service) (w : Surroundings ω) :
    Except Failure Unit × Service × Surroundings ω :=
  d.operate (fun s => s.start (d.pace timeout)) h w

def stop (d : Deployer ω) (timeout : Span) (force : Bool) (h : Service) (w : Surroundings ω) :
    Except Failure Unit × Service × Surroundings ω :=
  d.operate (fun s => s.stop (d.pace timeout) force) h w

/-- Stops the endpoint of a handle and deletes it. -/
def delete (d : Deployer ω) (timeout : Span) (force : Bool) (h : Service) (w : Surroundings ω) :
    Except Failure Unit × Service × Surroundings ω :=
  d.operate (fun s => s.delete (d.pace timeout) force) h w

/-- Keeps a new handle: as the payload of an artifact and, once more, in its metadata. -/
def keep (d : Deployer ω) (version : String) (h : Service) (now : Timestamp) (w : ω) :
    Except Artifact.Error Unit × ω :=
  let payload := h.toJson.sorted
  match d.registry.save artifactName version payload .deployment now w with
  | (.error e, w) => (.error e, w)
  | (.ok _, w) => d.registry.log artifactName version [(artifactName, payload)] w

/-- The times that a deployment puts down: when the handle was made and when it was kept. -/
structure Moments where
  made : Timestamp
  kept : Timestamp

/-- What a deployment leaves behind: its result, the configuration, and the surroundings. -/
structure Deployed (ω : Type) where
  result : Except Failure Service
  config : EndpointConfig
  surroundings : Surroundings ω

/-- Deploys a model: names the endpoint, keeps the handle, and starts the endpoint. The configuration
has the new name afterwards, also if a later step failed. -/
def deploy (d : Deployer ω) (model : Uuid) (config : EndpointConfig) (timeout : Span) (moments : Moments)
    (w : Surroundings ω) : Deployed ω :=
  match d.enter w.environment with
  | (.error f, environment) => ⟨.error f, config, { w with environment }⟩
  | (.ok c, _) =>
    let version := versionOf model
    let config :=
      { config with endpointName := EndpointConfig.versionedName config.endpointName version }
    let h := Service.new model config moments.made
    match d.keep version h moments.kept w.world with
    | (.error e, world) => ⟨.error (.fault (.artifact e)), config, ⟨world, .cleared⟩⟩
    | (.ok (), world) =>
      let (result, x) := (d.session c).start (d.pace timeout) ⟨h, world, ⟨0⟩⟩
      ⟨result.map fun _ => x.service, config, ⟨x.platform, .cleared⟩⟩

/-- The handle that is kept under a version. -/
def find (d : Deployer ω) (version : String) (w : ω) : Except Error Service :=
  match d.registry.load artifactName version w with
  | .error e => .error (.artifact e)
  | .ok a =>
    match Service.decoder.ofJson? a.payload with
    | some h => .ok h
    | none => .error .unreadable

/-- All handles that are kept, oldest first. -/
def findAll (d : Deployer ω) (w : ω) : Except Error (List Service) :=
  match d.registry.versions artifactName w with
  | .error e => .error (.artifact e)
  | .ok vs => vs.mapM fun v => d.find v.version w

end Deployer

end Deployment

end ModelDepot
