import ModelDepot.Deployment.Credentials
import ModelDepot.Json.Decode
import ModelDepot.Time.Span

/-! # Settings of a deployer -/

namespace ModelDepot

open Json (Decoder record)

namespace Deployment

/-- What a deployer is told once: as whom to act, where the platform is, how often to look and how
long one exchange may take. -/
structure Settings where
  token : Option String
  owner : Option String
  apiUrl : String
  pollMillis : UInt64
  requestSeconds : UInt64
  deriving DecidableEq, Repr

namespace Settings

def defaultApiUrl : String := "https://api.endpoints.huggingface.cloud/v2/endpoint"

def default : Settings := ⟨none, none, defaultApiUrl, 5000, 60⟩

/-- The settings with another interval: its whole milliseconds, as many as can be kept. -/
def withPollInterval (s : Settings) (interval : Span) : Settings :=
  { s with pollMillis := UInt64.ofNat (min interval.toMillis (UInt64.size - 1)) }

def pollInterval (s : Settings) : Span := .ofMillis s.pollMillis.toNat

/-- The time that one exchange may take. -/
def requestTimeout (s : Settings) : Span := .ofSeconds s.requestSeconds.toNat

def credentials (s : Settings) : Except ConfigFault Credentials :=
  Credentials.ofSettings s.token s.owner

/-- The names of the fields, in order. -/
def fields : List String :=
  ["token", "namespace", "api_url", "poll_interval_ms", "request_timeout_secs"]

def wordDecoder : Decoder UInt64 := fun depth d => (Decoder.unsigned UInt64.size depth d).map UInt64.ofNat

def decoder : Decoder Settings := (record fields).andThen fun r => do
  return {
    token := ← r.withDefault "token" none (.nullable .text)
    owner := ← r.withDefault "namespace" none (.nullable .text)
    apiUrl := ← r.withDefault "api_url" defaultApiUrl .text
    pollMillis := ← r.withDefault "poll_interval_ms" default.pollMillis wordDecoder
    requestSeconds := ← r.withDefault "request_timeout_secs" default.requestSeconds wordDecoder }

end Settings

end Deployment

end ModelDepot
