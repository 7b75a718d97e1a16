import Mathlib.Data.List.Induction
import ModelDepot.Artifact.Registry
import ModelDepot.Proofs.Json.Members

/-! # Histories of a registry

What a registry answers is judged by the calls that it was asked before. Of the calls about one name and
version the first save counts, and the metadata that was logged after it, merged from left to right.
-/

namespace ModelDepot

open Json (Members)

namespace Artifact

/-- What can be asked about one version of an artifact. -/
inductive Request where
  | save (payload : Json) (options : SaveOptions) (now : Timestamp)
  | log (metadata : Members)
  | load
  | metadata

structure Call where
  name : String
  version : String
  request : Request

inductive Reply where
  | version (v : Version)
  | done
  | artifact (a : StoredArtifact)
  | metadata (ms : Members)

namespace Call

def label (c : Call) : String := Artifact.label c.name c.version

def pair (c : Call) : String × String := (c.name, c.version)

def logged? (c : Call) : Option Members :=
  match c.request with
  | .log ms => some ms
  | _ => none

end Call

/-! ## What calls leave -/

/-- Metadata merged from left to right. -/
def merged (logs : List Members) : Members := logs.foldl Members.extend []

/-- What calls about one name and version leave: what was saved first, with the metadata logged since. -/
def kept? : List Call → Option StoredArtifact
  | [] => none
  | c :: rest =>
    match c.request with
    | .save payload options now =>
      some ⟨.new c.name c.version options now, payload, merged (rest.filterMap Call.logged?)⟩
    | _ => kept? rest

/-- What a call does to the artifact that it is about. -/
def Call.update (c : Call) (held : Option StoredArtifact) : Option StoredArtifact :=
  match c.request, held with
  | .save payload options now, none => some ⟨.new c.name c.version options now, payload, []⟩
  | .log ms, some a => some (a.addMetadata ms)
  | _, held => held

/-- The answer to a call when an artifact is held or none is. What is refused cannot be saved. -/
def Call.answer (c : Call) (refusal : Option Error) (held : Option StoredArtifact) : Except Error Reply :=
  match held, c.request with
  | some _, .save .. => .error (.alreadyExists c.label)
  | some _, .log _ => .ok .done
  | some a, .load => .ok (.artifact a)
  | some a, .metadata => .ok (.metadata a.metadata)
  | none, .save _ options now =>
    match refusal with
    | some e => .error e
    | none => .ok (.version (.new c.name c.version options now))
  | none, _ => .error (.notFound c.label)

theorem merged_concat (logs : List Members) (ms : Members) :
    merged (logs ++ [ms]) = Members.extend (merged logs) ms := by
  simp [merged]

theorem kept?_concat (calls : List Call) (c : Call) : kept? (calls ++ [c]) = c.update (kept? calls) := by
  induction calls with
  | nil =>
    simp only [List.nil_append, kept?, Call.update]
    cases c.request <;> rfl
  | cons d rest ih =>
    rw [List.cons_append, kept?, kept?]
    cases d.request with
    | save payload options now =>
      simp only [List.filterMap_append]
      unfold Call.update
      cases request : c.request with
      | log ms => simp [Call.logged?, request, merged_concat, StoredArtifact.addMetadata]
      | _ => simp [Call.logged?, request]
    | _ => exact ih

end Artifact

/-! ## Asking a registry -/

namespace Registry

open Artifact (Call Error Reply)

variable {ρ : Type} (reg : Registry ρ)

def ask (c : Call) (r : ρ) : Except Error Reply × ρ :=
  match c.request with
  | .save payload options now =>
    let (result, r) := reg.save c.name c.version payload options now r
    (result.map .version, r)
  | .log ms =>
    let (result, r) := reg.log c.name c.version ms r
    (result.map fun _ => .done, r)
  | .load => ((reg.load c.name c.version r).map .artifact, r)
  | .metadata => ((reg.metadata c.name c.version r).map .metadata, r)

/-- The state after some calls. -/
def after (r : ρ) (calls : List Call) : ρ := calls.foldl (fun r c => (reg.ask c r).2) r

theorem after_concat (r : ρ) (calls : List Call) (c : Call) :
    reg.after r (calls ++ [c]) = (reg.ask c (reg.after r calls)).2 := by
  simp [after]

end Registry

end ModelDepot
