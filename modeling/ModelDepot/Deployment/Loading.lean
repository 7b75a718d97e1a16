import ModelDepot.Config.File
import ModelDepot.Config.Variables
import ModelDepot.Deployment.Settings

/-! # Loading settings

The settings of a deployer come from a file, if one is asked for, and from the process environment, which
wins. What neither says has its default.
-/

namespace ModelDepot

namespace Deployment

open Config (Value)
open Files (FileSystem Path)

namespace Settings

/-- What the names of variables begin with. -/
def variableStart : String := "HF_DEPLOYER"

/-- A text that may be absent: nothing counts as absent. -/
def optionalText? : Option Value → Option (Option String)
  | none => some none
  | some .nothing => some none
  | some v => v.asText?.map some

/-- A field that a value is converted for; an absent one has its default. -/
def field? {α : Type} (value : Option Value) (convert : Value → Option α) (default : α) : Option α :=
  value.elim (some default) convert

/-- The settings that a configuration holds. What is not asked for does not matter. -/
def ofConfiguration? (v : Value) : Option Settings := do
  let get := fun name => v.members.lookup name
  return {
    token := ← optionalText? (get "token")
    owner := ← optionalText? (get "namespace")
    apiUrl := ← field? (get "api_url") Value.asText? defaultApiUrl
    pollMillis := ← field? (get "poll_interval_ms") Value.asWord? default.pollMillis
    requestSeconds := ← field? (get "request_timeout_secs") Value.asWord? default.requestSeconds }

/-- Loads settings, given the variables of the environment. -/
def load? (fs : FileSystem) (file : Option Path) (environment : List (String × String)) :
    Option Settings := do
  let written ← match file with
    | none => some []
    | some p => Config.settingsOfFile? fs p
  ofConfiguration? (Config.layer (.table []) (written ++ Config.settingsOf variableStart environment))

end Settings

end Deployment

end ModelDepot
