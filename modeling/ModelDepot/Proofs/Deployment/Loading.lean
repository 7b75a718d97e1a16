import ModelDepot.Deployment.Loading
import ModelDepot.Proofs.Config.Variables

/-! # Settings that are texts

The token, the namespace and the address of the platform are texts, and each has a variable of its own. What the last
word on one of them says does not depend on files or on other variables.
-/

namespace ModelDepot

namespace Deployment

open Config (Value keyOf? lower separator memberOf settingsOf stepsOf valueOf settled Kept layer)
open Files (FileSystem Path)

/-! ## The settings -/

/-- A setting that is a text. -/
inductive TextSetting where
  | token
  | owner
  | apiUrl
  deriving DecidableEq

namespace TextSetting

variable {setting : TextSetting} {v : Value} {s : Settings} {text : String}

/-- The member of a configuration that it is. -/
def member : TextSetting → String
  | token => "token"
  | owner => "namespace"
  | apiUrl => "api_url"

/-- The variable that sets it. -/
def variableName : TextSetting → String
  | token => "HF_DEPLOYER__TOKEN"
  | owner => "HF_DEPLOYER__NAMESPACE"
  | apiUrl => "HF_DEPLOYER__API_URL"

def get (s : Settings) : TextSetting → Option String
  | token => s.token
  | owner => s.owner
  | apiUrl => some s.apiUrl

def put (text : String) (s : Settings) : TextSetting → Settings
  | token => { s with token := some text }
  | owner => { s with owner := some text }
  | apiUrl => { s with apiUrl := text }

theorem keyOf?_variableName (setting : TextSetting) :
    keyOf? Settings.variableStart setting.variableName = some setting.member := by
  have begins : (lower setting.variableName).startsWith (lower (Settings.variableStart ++ separator)) = true := by
    cases setting <;> decide +kernel
  have rest : String.ofList ((lower setting.variableName).toList.drop
      (lower (Settings.variableStart ++ separator)).length) = setting.member := by
    cases setting <;> decide
  have whole : setting.member.splitOn separator = [setting.member] :=
    Config.splitOn_of_within (n := 10) (by decide) (by cases setting <;> decide +kernel)
  rw [keyOf?, if_pos begins, rest, whole]
  rfl

theorem stepsOf_member (setting : TextSetting) : stepsOf setting.member = [.member setting.member] := by
  cases setting <;> decide

theorem memberOf_member (setting : TextSetting) : memberOf setting.member = setting.member := by
  rw [memberOf, stepsOf_member]

/-- A variable is about the setting, or about something in it. -/
def Concerns (setting : TextSetting) (given : String × String) : Prop :=
  ∃ key, keyOf? Settings.variableStart given.1 = some key ∧ memberOf key = setting.member

end TextSetting

namespace Settings

theorem ofConfiguration?_eq_some_iff {v : Value} {s : Settings} :
    ofConfiguration? v = some s ↔
      optionalText? (v.members.lookup "token") = some s.token ∧
        optionalText? (v.members.lookup "namespace") = some s.owner ∧
          field? (v.members.lookup "api_url") Value.asText? defaultApiUrl = some s.apiUrl ∧
            field? (v.members.lookup "poll_interval_ms") Value.asWord? default.pollMillis = some s.pollMillis ∧
              field? (v.members.lookup "request_timeout_secs") Value.asWord? default.requestSeconds =
                some s.requestSeconds := by
  simp only [ofConfiguration?, bind, Option.bind_eq_some_iff, pure, Option.some.injEq]
  constructor
  · rintro ⟨_, token, _, owner, _, apiUrl, _, poll, _, request, rfl⟩
    exact ⟨token, owner, apiUrl, poll, request⟩
  · rintro ⟨token, owner, apiUrl, poll, request⟩
    exact ⟨_, token, _, owner, _, apiUrl, _, poll, _, request, rfl⟩

theorem load?_eq_some_iff {fs : FileSystem} {file : Option Path} {environment : List (String × String)} {s : Settings} :
    load? fs file environment = some s ↔
      ∃ written, file.elim (some []) (Config.settingsOfFile? fs) = some written ∧
        ofConfiguration? (layer (.table []) (written ++ settingsOf variableStart environment)) = some s := by
  cases file with
  | none => simp [load?]
  | some path => simp [load?, Option.bind_eq_some_iff]

theorem optionalText?_of_text {new : Value} {text : String} (written : new.asText? = some text) :
    optionalText? (some new) = some (some text) := by
  cases new with
  | nothing => cases written
  | _ => exact congrArg (Option.map some) written

end Settings

namespace TextSetting

variable {setting : TextSetting} {v w : Value} {s : Settings} {text : String}

theorem get_of_lookup {new : Value} (there : v.members.lookup setting.member = some new)
    (written : new.asText? = some text) (loaded : Settings.ofConfiguration? v = some s) :
    setting.get s = some text := by
  obtain ⟨token, owner, apiUrl, -, -⟩ := Settings.ofConfiguration?_eq_some_iff.mp loaded
  cases setting with
  | token =>
    have there : v.members.lookup "token" = some new := there
    rw [there, Settings.optionalText?_of_text written] at token
    exact (Option.some.inj token).symm
  | owner =>
    have there : v.members.lookup "namespace" = some new := there
    rw [there, Settings.optionalText?_of_text written] at owner
    exact (Option.some.inj owner).symm
  | apiUrl =>
    have there : v.members.lookup "api_url" = some new := there
    rw [there] at apiUrl
    exact apiUrl.symm.trans written

theorem put_of_lookup {new : Value} (there : w.members.lookup setting.member = some new)
    (written : new.asText? = some text)
    (others : ∀ name, name ≠ setting.member → w.members.lookup name = v.members.lookup name)
    (loaded : Settings.ofConfiguration? v = some s) : Settings.ofConfiguration? w = some (setting.put text s) := by
  obtain ⟨token, owner, apiUrl, poll, request⟩ := Settings.ofConfiguration?_eq_some_iff.mp loaded
  have poll' := (congrArg (Settings.field? · Value.asWord? Settings.default.pollMillis)
    (others "poll_interval_ms" (by cases setting <;> decide))).trans poll
  have request' := (congrArg (Settings.field? · Value.asWord? Settings.default.requestSeconds)
    (others "request_timeout_secs" (by cases setting <;> decide))).trans request
  rw [Settings.ofConfiguration?_eq_some_iff]
  cases setting with
  | token =>
    rw [others "namespace" (by decide), others "api_url" (by decide)]
    exact ⟨there ▸ Settings.optionalText?_of_text written, owner, apiUrl, poll', request'⟩
  | owner =>
    rw [others "token" (by decide), others "api_url" (by decide)]
    exact ⟨token, there ▸ Settings.optionalText?_of_text written, apiUrl, poll', request'⟩
  | apiUrl =>
    rw [others "token" (by decide), others "namespace" (by decide)]
    exact ⟨token, owner, there ▸ written, poll', request'⟩

/-! ## Loading -/

theorem settingsOf_variable (setting : TextSetting) (before after : List (String × String)) (text : String) :
    settingsOf Settings.variableStart (before ++ (setting.variableName, text) :: after) =
      settingsOf Settings.variableStart before ++
        (setting.member, valueOf text) :: settingsOf Settings.variableStart after := by
  rw [settingsOf, settingsOf, settingsOf, List.filterMap_append,
    List.filterMap_cons_some (by rw [keyOf?_variableName]; rfl)]

theorem apart_of_last {after : List (String × String)} (last : ∀ given ∈ after, ¬ setting.Concerns given) :
    ∀ m ∈ settingsOf Settings.variableStart after, memberOf m.1 ≠ setting.member := by
  intro m at' same
  obtain ⟨given, among, set⟩ := List.mem_filterMap.mp at'
  obtain ⟨key, spelled, rfl⟩ := Option.map_eq_some_iff.mp set
  exact last given among ⟨key, spelled, same⟩

theorem lookup_layer_variable (base : Value) (written : List (String × Value)) (before : List (String × String))
    {after : List (String × String)} (last : ∀ given ∈ after, ¬ setting.Concerns given) :
    (layer base (written ++ settingsOf Settings.variableStart
      (before ++ (setting.variableName, text) :: after))).members.lookup setting.member = some (valueOf text) := by
  rw [settingsOf_variable, ← List.append_assoc, Config.layer_append, Config.layer_cons,
    Config.lookup_layer_of_apart (apart_of_last last), Config.lookup_setAt, memberOf_member, if_pos rfl, stepsOf_member]
  exact congrArg some (Config.overlay_of_asText _ (Config.asText?_valueOf text))

theorem lookup_layer_others (base : Value) (written : List (String × Value)) (before after : List (String × String))
    {name : String} (other : name ≠ setting.member) :
    (layer base (written ++ settingsOf Settings.variableStart
      (before ++ (setting.variableName, text) :: after))).members.lookup name =
        (layer base (written ++ settingsOf Settings.variableStart (before ++ after))).members.lookup name := by
  have split : settingsOf Settings.variableStart (before ++ after) =
      settingsOf Settings.variableStart before ++ settingsOf Settings.variableStart after := List.filterMap_append
  simp only [settingsOf_variable, split, Config.layer_append, Config.layer_cons]
  refine Config.lookup_layer_congr ?_
  rw [Config.lookup_setAt, memberOf_member, if_neg other]

theorem get_load? (fs : FileSystem) (file : Option Path) (before : List (String × String))
    {after : List (String × String)} (last : ∀ given ∈ after, ¬ setting.Concerns given)
    (loaded : Settings.load? fs file (before ++ (setting.variableName, text) :: after) = some s) :
    setting.get s = some (settled text) := by
  obtain ⟨written, -, loaded⟩ := Settings.load?_eq_some_iff.mp loaded
  exact get_of_lookup (lookup_layer_variable _ written before last) (Config.asText?_valueOf text) loaded

theorem put_load? (setting : TextSetting) (fs : FileSystem) (file : Option Path) (text : String)
    (before after : List (String × String)) (last : ∀ given ∈ after, ¬ setting.Concerns given)
    (loaded : Settings.load? fs file (before ++ after) = some s) :
    Settings.load? fs file (before ++ (setting.variableName, text) :: after) =
      some (setting.put (settled text) s) := by
  obtain ⟨written, found, loaded⟩ := Settings.load?_eq_some_iff.mp loaded
  refine Settings.load?_eq_some_iff.mpr ⟨written, found, ?_⟩
  exact put_of_lookup (lookup_layer_variable _ written before last) (Config.asText?_valueOf text)
    (fun name other => lookup_layer_others _ written before after other) loaded

theorem load?_alone (setting : TextSetting) (fs : FileSystem) (text : String) :
    Settings.load? fs none [(setting.variableName, text)] = some (setting.put (settled text) Settings.default) :=
  put_load? setting fs none text [] [] (fun _ absent => absurd absent List.not_mem_nil) rfl

/-- **A variable sets a text to what it is read as.** Whatever the file and the variables before it say, the settings
hold the text that the value of the variable is written as; with the variable the settings load if they load without
it, and are the same otherwise. That text is the one that was given exactly if it is kept: a number is rewritten unless
it is spelled as it would be written, and so is a truth value. -/
theorem load?_settles (setting : TextSetting) (fs : FileSystem) (file : Option Path) (text : String)
    (before after : List (String × String)) (last : ∀ given ∈ after, ¬ setting.Concerns given) :
    (∀ s, Settings.load? fs file (before ++ (setting.variableName, text) :: after) = some s →
        setting.get s = some (settled text)) ∧
      (∀ s, Settings.load? fs file (before ++ after) = some s →
        Settings.load? fs file (before ++ (setting.variableName, text) :: after) =
          some (setting.put (settled text) s)) ∧
        (settled text = text ↔ Kept text) :=
  ⟨fun _ => get_load? fs file before last, fun _ => put_load? setting fs file text before after last,
    Config.settled_eq_self_iff text⟩

/-- A variable that sets another setting is not about the token. -/
theorem load?_settles_zeros :
    (∀ given ∈ [("HF_DEPLOYER__NAMESPACE", "acme")], ¬ TextSetting.token.Concerns given) ∧
      Settings.load? ⟨[], []⟩ none [("HF_DEPLOYER__TOKEN", "007"), ("HF_DEPLOYER__NAMESPACE", "acme")] =
        some { Settings.default with token := some "7", owner := some "acme" } := by
  have last : ∀ given ∈ [("HF_DEPLOYER__NAMESPACE", "acme")], ¬ TextSetting.token.Concerns given := by
    rintro given at' ⟨key, spelled, same⟩
    obtain rfl := List.mem_singleton.mp at'
    obtain rfl := Option.some.inj (spelled.symm.trans (keyOf?_variableName owner))
    exact absurd same (by decide)
  have named : Settings.load? ⟨[], []⟩ none [("HF_DEPLOYER__NAMESPACE", "acme")] =
      some { Settings.default with owner := some "acme" } := load?_alone owner ⟨[], []⟩ "acme"
  exact ⟨last, (load?_settles token ⟨[], []⟩ none "007" [] _ last).2.1 _ named⟩

/-- Zeros that lead are lost. -/
theorem load?_rewrites :
    "007" ≠ "" ∧
      Settings.load? ⟨[], []⟩ none [("HF_DEPLOYER__TOKEN", "007")] = some { Settings.default with token := some "7" } :=
  ⟨by decide, load?_alone token ⟨[], []⟩ "007"⟩

end TextSetting

end Deployment

end ModelDepot
