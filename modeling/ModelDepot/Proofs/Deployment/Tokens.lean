import ModelDepot.Artifact.Memory
import ModelDepot.Proofs.Deployment.Reports
import ModelDepot.Proofs.Deployment.Starting

/-! # What a token leaves behind

A token is sent to the platform and set in the environment while an operation runs, and that is all. If the
platform answers two tokens of one owner alike, whatever is done with the one does the same with the other:
the same is told, and the same is kept. A token that the environment cannot hold is not even sent.
-/

namespace ModelDepot

namespace Deployment

variable {σ ρ ε : Type} {c c' : Credentials}

/-- The request as it is sent with other credentials. -/
def Request.sentBy (c : Credentials) (r : Request) : Request :=
  { r with environment := .exporting c, credentials := c }

def Settings.holding (s : Settings) (c : Credentials) : Settings :=
  { s with token := some c.token, owner := some c.owner }

theorem Settings.credentials_holding (s : Settings) (c : Credentials) : (s.holding c).credentials = .ok c := by
  simp [holding, credentials, Credentials.ofSettings, Credentials.of, c.token_notBlank, c.owner_notBlank]

/-! ## Platforms that do not look at the token -/

/-- From a state on, a platform answers requests alike with two credentials. What it keeps of them is its own
affair. -/
def Api.Heedless (api : Api σ) (c c' : Credentials) (platform : σ) : Prop :=
  ∀ (rs : List Request) (r : Request),
    (api.answer (r.sentBy c') (api.after (rs.map (.sentBy c')) platform)).1 =
      (api.answer (r.sentBy c) (api.after (rs.map (.sentBy c)) platform)).1

/-- Two platforms that were asked the same, each with its own credentials; what is beside them is the same. -/
def Asked (api : Api σ) (c c' : Credentials) (platform : σ) (a b : σ × ρ) : Prop :=
  b.2 = a.2 ∧ ∃ rs : List Request,
    a.1 = api.after (rs.map (.sentBy c)) platform ∧ b.1 = api.after (rs.map (.sentBy c')) platform

theorem Deployer.reply_between (settings : Settings) (api : Api σ) (registry : Registry ρ) (clock : Clock)
    (h : Service) (now : Span) (call : Call) (w : σ × ρ) :
    ((between settings api registry clock).session c).reply h now call w =
      let (answer, platform) := api.answer ⟨now, .exporting c, c, h.owner c, call⟩ w.1
      (answer, (platform, w.2)) := rfl

theorem Api.Heedless.agree {api : Api σ} {platform : σ} (heedless : api.Heedless c c' platform)
    (owner : c'.owner = c.owner) (settings settings' : Settings) (registry : Registry ρ) (clock : Clock)
    (h : Service) :
    ((Deployer.between settings api registry clock).session c).Agree
      ((Deployer.between settings' api registry clock).session c') h (Asked api c c' platform) := by
  rintro now call ⟨a, r⟩ ⟨b, r'⟩ - ⟨beside, rs, asked, asked'⟩
  obtain rfl : r' = r := beside
  obtain rfl : a = _ := asked
  obtain rfl : b = _ := asked'
  -- Both requests are one request, sent with the one and with the other credentials.
  let request : Request := ⟨now, .cleared, c, h.owner c, call⟩
  have same : h.owner c' = h.owner c := by rw [Service.owner, owner, Service.owner]
  rw [Deployer.reply_between, Deployer.reply_between, same]
  refine ⟨(heedless rs request).symm, rfl, rs ++ [request], ?_, ?_⟩
  · rw [List.map_append, List.map_singleton, Api.after_concat]
    rfl
  · rw [List.map_append, List.map_singleton, Api.after_concat]
    rfl

theorem Api.Heedless.alike {api : Api σ} {platform : σ} (heedless : api.Heedless c c' platform)
    (owner : c'.owner = c.owner) (fit : c.exportable) (fit' : c'.exportable) (settings : Settings)
    (registry : Registry ρ) (clock : Clock) :
    (Deployer.between (settings.holding c) api registry clock).Alike
      (Deployer.between (settings.holding c') api registry clock) (Asked api c c' platform) where
  pace := rfl
  platform := .inr ⟨c, c', Deployer.enter_of_exportable (settings.credentials_holding c) fit,
    Deployer.enter_of_exportable (settings.credentials_holding c') fit', heedless.agree owner _ _ registry clock⟩
  save := by
    rintro ⟨a, r⟩ ⟨b, r'⟩ name version payload options now ⟨beside, asked⟩
    obtain rfl : r' = r := beside
    exact ⟨rfl, rfl, asked⟩
  log := by
    rintro ⟨a, r⟩ ⟨b, r'⟩ name version metadata ⟨beside, asked⟩
    obtain rfl : r' = r := beside
    exact ⟨rfl, rfl, asked⟩
  load := by
    rintro ⟨a, r⟩ ⟨b, r'⟩ name version ⟨beside, -⟩
    obtain rfl : r' = r := beside
    rfl

/-! ## Tokens that cannot be held -/

namespace Deployer

variable {ω : Type} {d : Deployer ω}

end Deployer

/-! ## A platform that keeps the tokens -/

end Deployment

end ModelDepot
