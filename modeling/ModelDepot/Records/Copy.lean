import ModelDepot.Files.System
import ModelDepot.Records.Directory

/-! # Copying records

Copies all files below a directory, links followed, to the same places below an output directory. The
output may not lie inside the directory; that is judged by where paths lead, before anything is made.
What is found below the directory is read when it is reached, directory by directory.
-/

namespace ModelDepot

open Files (Errno FileSystem Location Name Path maxPath)

namespace Records

/-- Why records were not copied. -/
inductive Fault where
  | invalid (text : String)
  | sourceNotFound (path : Path)
  | outputInsideSource (output source : Path)
  | file (path : Path) (cause : Errno)
  /-- What is below the directory could not be reached; `loop` says that a link leads back to a
  directory above it. -/
  | walk (loop : Bool)
  deriving DecidableEq, Repr

namespace Fault

/-- The text of a fault, the system's words for a fault of the file system given by `words`. -/
def message (words : Errno → String) : Fault → String
  | invalid text => "Invalid datasource: " ++ text
  | sourceNotFound path => "Source directory not found: " ++ path.text
  | outputInsideSource output source =>
    "Output path " ++ output.text ++ " lies inside source directory " ++ source.text
  | file path cause => "I/O failed for " ++ path.text ++ ": " ++ words cause
  | walk _ => "Failed to walk source directory"

end Fault

/-! ## Where the output is -/

/-- The longest beginning of a location that is there, the location given backwards, and the names
after it. -/
def splitPresent (fs : FileSystem) : List Name → List Name → Location × List Name
  | [], missing => ([], missing)
  | n :: up, missing =>
    let here := (n :: up).reverse
    if fs.present (Location.path here) then (here, missing) else splitPresent fs up (n :: missing)

/-- The location of an output. Steps upward take names back before links are followed. -/
def outputLocation (fs : FileSystem) (p : Path) : Except Fault Location :=
  let start := if p.isAbsolute then [] else fs.workingDirectory
  let (there, missing) := splitPresent fs (Location.resolve start p.names).reverse []
  match fs.canonical (Location.path there) with
  | .ok l => .ok (l ++ missing)
  | .error e => .error (.file (Location.path there) e)

/-! ## The walk -/

/-- What is met in a directory: a record, a directory to go into, or something that is passed over. -/
inductive Entry where
  | record
  | directory (location : Location)
  | idle
  deriving DecidableEq, Repr

/-- What is at a location that is reached by a path; `above` are the directories on the way to it. A
link stands for what it leads to, and may not lead to one of them. -/
def entryAt (fs : FileSystem) (above : List Location) (here : Location) (p : Path) :
    Except Fault Entry :=
  match fs.node? here with
  | some (.file _) => .ok .record
  | some .directory => .ok (.directory here)
  | some (.link _) =>
    match fs.status p with
    | .error _ => .error (.walk false)
    | .ok (there, .directory) =>
      if above.contains there then .error (.walk true) else .ok (.directory there)
    | .ok (_, .file _) => .ok .record
    | .ok _ => .ok .idle
  | _ => .ok .idle

/-- Copies one record and makes the directories that it needs. -/
def copyRecord (source target : Path) (fs : FileSystem) : Except Fault Unit × FileSystem :=
  let parent := target.parent?.getD target
  match fs.makeDirectories parent with
  | (.error e, fs) => (.error (.file parent e), fs)
  | (.ok (), fs) =>
    match fs.copy source target with
    | .ok fs => (.ok (), fs)
    | .error e => (.error (.file target e), fs)

/-- Copies some entries of a directory, and counts the records. `room` is how many more bytes a path
may have before it can no longer be followed, which also bounds the depth of the walk. -/
def copyEntries (room : Nat) (above : List Location) (here : Location) (source target : Path)
    (names : List Name) (copied : Nat) (fs : FileSystem) : Except Fault Nat × FileSystem :=
  match names with
  | [] => (.ok copied, fs)
  | n :: rest =>
    let origin := source.child n
    let into := target.child n
    match entryAt fs above (here ++ [n]) origin with
    | .error e => (.error e, fs)
    | .ok .idle => copyEntries room above here source target rest copied fs
    | .ok .record =>
      match copyRecord origin into fs with
      | (.error e, fs) => (.error e, fs)
      | (.ok (), fs) => copyEntries room above here source target rest (copied + 1) fs
    | .ok (.directory there) =>
      match fs.makeDirectories into with
      | (.error e, fs) => (.error (.file into e), fs)
      | (.ok (), fs) =>
        if n.length + 1 ≤ room then
          match copyEntries (room - (n.length + 1)) (there :: above) there origin into (fs.list there)
            copied fs with
          | (.error e, fs) => (.error e, fs)
          | (.ok copied, fs) => copyEntries room above here source target rest copied fs
        else (.error (.walk false), fs)
termination_by (room, names.length)

/-- Copies what is in a directory to another location, and counts the records. -/
def copyBelow (source target : Location) (fs : FileSystem) : Except Fault Nat × FileSystem :=
  let p := Location.path source
  copyEntries (maxPath - p.bytes.length) [source] source p (Location.path target) (fs.list source) 0 fs

namespace Directory

def location (d : Directory) (fs : FileSystem) : Except Fault Location :=
  match fs.canonical d.path with
  | .error .noEntry => .error (.sourceNotFound d.path)
  | .error e => .error (.file d.path e)
  | .ok l =>
    if fs.node? l = some .directory then .ok l else .error (.sourceNotFound (Location.path l))

/-- Copies all records to an output directory, and counts them. -/
def copyRecords (d : Directory) (output : Path) (fs : FileSystem) : Except Fault Nat × FileSystem :=
  match d.location fs with
  | .error e => (.error e, fs)
  | .ok source =>
    match outputLocation fs output with
    | .error e => (.error e, fs)
    | .ok target =>
      if source.isPrefixOf target then
        (.error (.outputInsideSource (Location.path target) (Location.path source)), fs)
      else
        match fs.makeDirectories (Location.path target) with
        | (.error e, fs) => (.error (.file (Location.path target) e), fs)
        | (.ok (), fs) => copyBelow source target fs

end Directory

end Records

end ModelDepot
