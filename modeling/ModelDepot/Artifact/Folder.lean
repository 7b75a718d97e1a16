import ModelDepot.Artifact.Registry
import ModelDepot.Files.Program

/-! # The registry in a folder

An artifact is one file: `artifact.json` in a folder named for its version, in a folder named for the
artifact, in the folder of the registry. Every operation is a program of file requests.
-/

namespace ModelDepot

open Files (Errno FileSystem Name Path Program)
open Json (Members)

namespace Artifact

/-- The folder of a registry. -/
structure Folder where
  root : Path

namespace Folder

/-- The name of the file of an artifact. -/
def fileName : Path := .ofText "artifact.json"

/-- The folder of all versions of a name. -/
def pathOfName (f : Folder) (name : String) : Path := f.root.join (.ofText name)

def pathOf (f : Folder) (name version : String) : Path :=
  ((f.pathOfName name).join (.ofText version)).join fileName

/-- A file operation's result as an artifact operation's. -/
def lift {α : Type} (p : Path) : Except Errno α → Except Error α
  | .ok x => .ok x
  | .error e => .error (.file p.text e)

def get (p : Path) : Program (Except Error StoredArtifact) := do
  match ← Program.read p .done with
  | .error e => return .error (.file p.text e)
  | .ok bytes =>
    match StoredArtifact.decoder.ofBytes? bytes with
    | some a => return .ok a
    | none => return .error .unreadable

/-- Writes an artifact to a file and makes the folders that it needs. -/
def set (p : Path) (a : StoredArtifact) : Program (Except Error Unit) := do
  let folder := p.parent?.getD p
  match ← Program.makeDirectories folder .done with
  | .error e => return .error (.file folder.text e)
  | .ok () => return lift p (← Program.write p a.toJson.toIndentedBytes .done)

def save (f : Folder) (name version : String) (payload : Json) (options : SaveOptions)
    (now : Timestamp) : Program (Except Error Version) := do
  match requireSegments name version with
  | .error e => return .error e
  | .ok () =>
    let p := f.pathOf name version
    if ← Program.present p .done then return .error (.alreadyExists (label name version))
    let v := Version.new name version options now
    match ← set p ⟨v, payload, []⟩ with
    | .error e => return .error e
    | .ok () => return .ok v

/-- Adds metadata to an artifact: reads the file and writes it anew. -/
def log (f : Folder) (name version : String) (metadata : Members) : Program (Except Error Unit) := do
  match requireSegments name version with
  | .error e => return .error e
  | .ok () =>
    let p := f.pathOf name version
    if ! (← Program.present p .done) then return .error (.notFound (label name version))
    match ← get p with
    | .error e => return .error e
    | .ok a => set p (a.addMetadata metadata)

/-- The artifact of a name and a version. -/
def load (f : Folder) (name version : String) : Program (Except Error StoredArtifact) := do
  match requireSegments name version with
  | .error e => return .error e
  | .ok () =>
    let p := f.pathOf name version
    if ! (← Program.present p .done) then return .error (.notFound (label name version))
    get p

/-- The records of those of some versions that have a file. -/
def records (folder : Path) : List Name → Program (Except Error (List Version))
  | [] => return .ok []
  | n :: rest => do
    let p := (folder.child n).join fileName
    if ! (← Program.present p .done) then records folder rest
    else
      match ← get p with
      | .error e => return .error e
      | .ok a => return (← records folder rest).map (a.version :: ·)

/-- The versions of a name, oldest first. -/
def versions (f : Folder) (name : String) : Program (Except Error (List Version)) := do
  match requireSegment "name" name with
  | .error e => return .error e
  | .ok () =>
    let folder := f.pathOfName name
    match ← Program.names folder .done with
    | .error .noEntry => return .ok []
    | .error e => return .error (.file folder.text e)
    | .ok names => return (← records folder names).map oldestFirst

end Folder

end Artifact

/-- The registry in a folder, used by nobody else. -/
def Registry.folder (f : Artifact.Folder) : Registry FileSystem where
  save name version payload options now fs := (f.save name version payload options now).run fs
  log name version metadata fs := (f.log name version metadata).run fs
  load name version fs := ((f.load name version).run fs).1
  versions name fs := ((f.versions name).run fs).1

end ModelDepot
