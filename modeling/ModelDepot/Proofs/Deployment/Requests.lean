import ModelDepot.Proofs.Deployment.Sessions

/-! # The requests of an operation

A platform that notes down what it is asked answers as it does without. So the requests of an operation
can be read off, and what the platform answers to one of them is its answer after those before it.
-/

namespace ModelDepot

namespace Deployment

variable {σ ε : Type}

/-! ## Noting -/

/-- The same platform, keeping a note of every request beside its own state. -/
def Api.noting (note : Request → ε) (api : Api σ) : Api (σ × List ε) where
  answer r w :=
    let (answer, platform) := api.answer r w.1
    (answer, (platform, w.2 ++ [note r]))

def Api.after (api : Api σ) (rs : List Request) (platform : σ) : σ :=
  rs.foldl (fun p r => (api.answer r p).2) platform

theorem Api.after_concat (api : Api σ) (rs : List Request) (r : Request) (platform : σ) :
    api.after (rs ++ [r]) platform = (api.answer r (api.after rs platform)).2 := by
  rw [after, List.foldl_append]
  rfl

namespace Session

variable (s : Session σ)

/-- The same session with a platform that keeps notes. -/
def noting (note : Request → ε) : Session (σ × List ε) := { s with api := s.api.noting note }

/-- What the platform answers to a request that follows others. -/
def answerAfter (rs : List Request) (h : Service) (clock : Span) (call : Call) (platform : σ) :
    Except Error call.Answer :=
  (s.reply h clock call (s.api.after rs platform)).1

/-- A handle at a time when requests have been sent and noted. -/
def having (platform : σ) (rs : List Request) (h : Service) (clock : Span) : Situation (σ × List Request) :=
  ⟨h, (s.api.after rs platform, rs), clock⟩

def requests {ε α : Type}
    (operation : Session (σ × List Request) → Situation (σ × List Request) → Outcome (σ × List Request) ε α)
    (x : Situation σ) : List Request :=
  (operation (s.noting id) (s.having x.platform [] x.service x.clock)).2.platform.2

theorem agree_noting (note : Request → ε) (h : Service) :
    Agree s (s.noting note) h fun platform noted => noted.1 = platform := by
  intro clock call platform noted _ same
  subst same
  exact ⟨rfl, rfl⟩

theorem agree_notes {α : Type} (note : Request → ε) (more : ε → α) (before : List α) (h : Service) :
    Agree (s.noting note) (s.noting (more ∘ note)) h fun a b => b = (a.1, before ++ a.2.map more) := by
  rintro clock call a b - rfl
  simp [reply, noting, Api.noting, request]

theorem answerAfter_of_same {h h' : Service} (same : h.SameDeployment h') (rs : List Request) :
    s.answerAfter rs h' = s.answerAfter rs h := by
  funext clock call platform
  rw [answerAfter, s.reply_of_same same, answerAfter]

theorem ask_having (platform : σ) (rs : List Request) (h : Service) (clock : Span) (call : Call) :
    (s.noting id).ask call (s.having platform rs h clock) =
      (s.answerAfter rs h clock call platform,
        s.having platform (rs ++ [s.request h clock call]) h clock) := by
  rw [having, having, Api.after_concat]
  rfl

end Session

end Deployment

end ModelDepot
