import ModelDepot.Artifact.Basic
import ModelDepot.Artifact.Store
import ModelDepot.Boosting.Booster

/-! # Keeping boosters in a store

A booster is kept as `model.json` in the directory of a URI. On its way to and from the store it is
staged in a temporary place, which is gone when the operation ends, however it ends.
-/

namespace ModelDepot

open Files (FileSystem Name Path)
open Artifact (Store joinUri)

namespace Boosting

namespace Booster

def saveTo (b : Booster) (p : Path) (fs : FileSystem) : Except Error Unit × FileSystem :=
  match fs.write p b.toBytes with
  | .ok fs => (.ok (), fs)
  | .error e => (.error (.file p.text e), fs)

/-- Reads and checks the booster in a file. -/
def loadFrom (p : Path) (fs : FileSystem) : Except Error Booster :=
  match fs.read p with
  | .ok bytes => ofBytes bytes
  | .error e => .error (.file p.text e)

end Booster

/-- A store of boosters and the directory in which they are staged. -/
structure Materializer where
  store : Store
  staging : Path

namespace Materializer

def kind : Artifact.Kind := .model

/-- The name of the type of what is kept. -/
def itemName : String := "Booster"

/-- The name of the file of a booster. -/
def fileName : String := "model.json"

/-- What the names of temporary entries begin with. -/
def temporaryPrefix : String := "zenml-temp-"

/-- Why a booster was not kept or not found. -/
inductive Error where
  /-- No temporary place could be made. -/
  | staging
  /-- The temporary place has a path that is not text. -/
  | stagingPath
  | store (e : Artifact.Error)
  | booster (e : Boosting.Error)

/-- The staging directory as an absolute path. -/
def stagingRoot (m : Materializer) (fs : FileSystem) : Path := fs.workingDirectory.path.join m.staging

/-- The path of the temporary entry with a number. -/
def temporaryPath (m : Materializer) (fs : FileSystem) (suffix : String) (n : Nat) : Path :=
  (m.stagingRoot fs).join (.ofText (temporaryPrefix ++ toString n ++ suffix))

/-- Nothing is at a path, not even a link. -/
def isFree (fs : FileSystem) (p : Path) : Bool :=
  match fs.locate false p with
  | .ok (.free _) => true
  | _ => false

/-- A path for a temporary entry that is not there yet, if there is one. -/
def freshPath? (m : Materializer) (fs : FileSystem) (suffix : String) : Option Path :=
  ((List.range (fs.entries.length + 1)).map (m.temporaryPath fs suffix)).find? (isFree fs)

/-- The file system after a temporary entry was taken away. -/
def cleared (p : Path) (fs : FileSystem) : FileSystem :=
  match fs.remove p with
  | .ok fs => fs
  | .error _ => fs

/-- Copies the file of a booster out of the store and reads the copy. -/
def fetch (m : Materializer) (uri : String) (copy : Path) (fs : FileSystem) :
    Except Error Booster × FileSystem :=
  match copy.text? with
  | none => (.error .stagingPath, fs)
  | some target =>
    match m.store.copy (joinUri uri fileName) target false fs with
    | (.error e, fs) => (.error (.store e), fs)
    | (.ok (), fs) =>
      match Booster.loadFrom copy fs with
      | .ok b => (.ok b, fs)
      | .error e => (.error (.booster e), fs)

/-- The booster that is kept at a URI. -/
def load (m : Materializer) (uri : String) (fs : FileSystem) : Except Error Booster × FileSystem :=
  match m.freshPath? fs "" with
  | none => (.error .staging, fs)
  | some directory =>
    match fs.makeDirectory directory with
    | .error _ => (.error .staging, fs)
    | .ok fs =>
      let (result, fs) := m.fetch uri (directory.join (.ofText fileName)) fs
      (result, cleared directory fs)

/-- Writes a booster to a temporary file and copies that into the store. -/
def deliver (m : Materializer) (b : Booster) (uri : String) (copy : Path) (fs : FileSystem) :
    Except Error Unit × FileSystem :=
  match b.saveTo copy fs with
  | (.error e, fs) => (.error (.booster e), fs)
  | (.ok (), fs) =>
    match copy.text? with
    | none => (.error .stagingPath, fs)
    | some source =>
      match m.store.copy source (joinUri uri fileName) false fs with
      | (.error e, fs) => (.error (.store e), fs)
      | (.ok (), fs) => (.ok (), fs)

/-- Keeps a booster at a URI, where there must be none yet. -/
def save (m : Materializer) (b : Booster) (uri : String) (fs : FileSystem) :
    Except Error Unit × FileSystem :=
  match m.freshPath? fs ".json" with
  | none => (.error .staging, fs)
  | some file =>
    match fs.write file [] with
    | .error _ => (.error .staging, fs)
    | .ok fs =>
      let (result, fs) := m.deliver b uri file fs
      (result, cleared file fs)

end Materializer

end Boosting

end ModelDepot
