import ModelDepot.Artifact.Error
import ModelDepot.Files.System
import ModelDepot.Url.Reading

/-! # The store

A store reaches files through URIs: plain paths, absolute or seen from the root of the store, and URLs
with the scheme `file`.
-/

namespace ModelDepot

open Files (FileSystem Path)

namespace Artifact

/-- The URI of a name in the directory of a URI. -/
def joinUri (base name : String) : String :=
  if base.isEmpty then name
  else if base.endsWith "/" then base ++ name
  else base ++ "/" ++ name

/-- A store with its root. -/
structure Store where
  root : Path
  deriving DecidableEq, Repr

namespace Store

/-- What a URL of a file begins with. -/
def fileScheme : String := "file://"

def hasScheme : List Char → Bool
  | ':' :: '/' :: '/' :: _ => true
  | _ :: rest => hasScheme rest
  | [] => false

/-- The path that a URI stands for. The file system is not looked at. -/
def resolve (s : Store) (uri : String) : Except Error Path :=
  if uri.isEmpty then .error (.invalidLocation "empty URI")
  else if uri.startsWith fileScheme then
    match Url.ofText uri with
    | .error e => .error (.invalidLocation (uri ++ ": " ++ e.text))
    | .ok u =>
      match u.filePath? with
      | some p => .ok p
      | none => .error (.invalidLocation uri)
  else if hasScheme uri.toList then
    .error (.invalidLocation ("unsupported scheme for local store: " ++ uri))
  else .ok (s.root.join (.ofText uri))

def present (s : Store) (uri : String) (fs : FileSystem) : Except Error Bool :=
  (s.resolve uri).map fs.present

/-- Makes a directory and all that is missing above it. -/
def makeDirectories (s : Store) (uri : String) (fs : FileSystem) : Except Error Unit × FileSystem :=
  match s.resolve uri with
  | .error e => (.error e, fs)
  | .ok p =>
    match fs.makeDirectories p with
    | (.ok (), fs) => (.ok (), fs)
    | (.error e, fs) => (.error (.file p.text e), fs)

/-- Copies between paths, and makes the directories that the target needs. -/
def copyPath (source target : Path) (fs : FileSystem) : Except Error Unit × FileSystem :=
  let (made, fs) := match target.parent? with
    | none => ((.ok () : Except Error Unit), fs)
    | some parent =>
      match fs.makeDirectories parent with
      | (.ok (), fs) => (.ok (), fs)
      | (.error e, fs) => (.error (.file parent.text e), fs)
  match made with
  | .error e => (.error e, fs)
  | .ok () =>
    match fs.copy source target with
    | .ok fs => (.ok (), fs)
    | .error e => (.error (.file target.text e), fs)

/-- Copies one file. Something that is at the target already is kept unless `overwrite` is set. -/
def copy (s : Store) (source target : String) (overwrite : Bool) (fs : FileSystem) :
    Except Error Unit × FileSystem :=
  match s.resolve source with
  | .error e => (.error e, fs)
  | .ok here =>
    match s.resolve target with
    | .error e => (.error e, fs)
    | .ok there =>
      if ! fs.isFile here then (.error (.notFound source), fs)
      else if fs.present there && ! overwrite then (.error (.alreadyExists target), fs)
      else copyPath here there fs

end Store

end Artifact

end ModelDepot
