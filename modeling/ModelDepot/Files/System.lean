import ModelDepot.Files.Errno
import ModelDepot.Files.Path

/-! # File systems

A file system gives each location what is there: a file with its bytes, a directory, a link, or
something else. A path is followed name by name from the root or from the working directory; links
lead on, and where they lead decides what a request is about. Requests that fail change nothing.
-/

namespace ModelDepot

namespace Files

/-- What is at a location. `other` is neither read nor kept: what is written to it is lost. -/
inductive Node where
  | file (bytes : List UInt8)
  | directory
  | link (target : Path)
  | other
  deriving DecidableEq, Repr

/-- Locations and what is there, and the working directory. The root is always a directory. -/
structure FileSystem where
  entries : List (Location × Node)
  workingDirectory : Location

/-- How many bytes a name may have. -/
def maxName : Nat := 255

/-- How many bytes a path may have. -/
def maxPath : Nat := 4095

/-- How many links may be followed on the way. -/
def maxLinks : Nat := 40

/-- Where a path leads: to something, or to a free place in a directory. -/
inductive Spot where
  | found (location : Location) (node : Node)
  | free (location : Location)
  deriving DecidableEq, Repr

namespace FileSystem

def node? (fs : FileSystem) (l : Location) : Option Node :=
  if l = [] then some .directory else fs.entries.lookup l

def put (fs : FileSystem) (l : Location) (n : Node) : FileSystem :=
  { fs with entries :=
      if (fs.entries.lookup l).isSome then fs.entries.map fun e => if e.1 = l then (l, n) else e
      else fs.entries ++ [(l, n)] }

/-- Takes away what is at a location and everything below it. -/
def erase (fs : FileSystem) (l : Location) : FileSystem :=
  { fs with entries := fs.entries.filter fun e => ! l.isPrefixOf e.1 }

/-- The names in a directory. They come in the order of their bytes so that they come in one; a system promises none,
and no result is about it. -/
def list (fs : FileSystem) (l : Location) : List Name :=
  ((fs.entries.filterMap fun e =>
    if e.1.dropLast = l then e.1.getLast? else none)).mergeSort fun a b => decide (a ≤ b)

/-! ## Following paths -/

/-- Follows names from a location, through no more than `links` links. A link that is the last name
is followed only if `last` is set. An empty name stands for the directory it is looked up in, so that
a slash at the end asks for a directory. -/
def follow (fs : FileSystem) (last : Bool) (links : Nat) (here : Location) (names : List Name) :
    Except Errno Spot :=
  match names with
  | [] =>
    match fs.node? here with
    | some n => .ok (.found here n)
    | none => .error .noEntry
  | name :: rest =>
    if fs.node? here ≠ some .directory then .error .notDirectory
    else if name = [] ∨ name = dot then follow fs last links here rest
    else if name = dotDot then follow fs last links here.dropLast rest
    else if maxName < name.length then .error .nameTooLong
    else
      let there := here ++ [name]
      match fs.node? there with
      | none => if rest = [] then .ok (.free there) else .error .noEntry
      | some (.link target) =>
        if rest = [] ∧ last = false then .ok (.found there (.link target))
        else
          match links with
          | 0 => .error .tooManyLinks
          | links + 1 =>
            follow fs last links (if target.isAbsolute then [] else here)
              (splitSlashes target.bytes ++ rest)
      | some _ => follow fs last links there rest
termination_by (links, names.length)

/-- Where a path leads; `last` says whether a link at its end is followed. -/
def locate (fs : FileSystem) (last : Bool) (p : Path) : Except Errno Spot :=
  if p.bytes.contains 0 then .error .invalidPath
  else if p.bytes = [] then .error .noEntry
  else if maxPath < p.bytes.length then .error .nameTooLong
  else
    follow fs last maxLinks (if p.isAbsolute then [] else fs.workingDirectory) (splitSlashes p.bytes)

/-- What a path leads to, and where that is. -/
def status (fs : FileSystem) (p : Path) : Except Errno (Location × Node) :=
  match fs.locate true p with
  | .ok (.found l n) => .ok (l, n)
  | .ok (.free _) => .error .noEntry
  | .error e => .error e

/-- Something is at the end of a path. -/
def present (fs : FileSystem) (p : Path) : Bool :=
  match fs.status p with
  | .ok _ => true
  | .error _ => false

def isFile (fs : FileSystem) (p : Path) : Bool :=
  match fs.status p with
  | .ok (_, .file _) => true
  | _ => false

def isDirectory (fs : FileSystem) (p : Path) : Bool :=
  match fs.status p with
  | .ok (_, .directory) => true
  | _ => false

/-- The location that a path leads to. -/
def canonical (fs : FileSystem) (p : Path) : Except Errno Location := (fs.status p).map (·.1)

/-- The names in the directory that a path leads to. -/
def names (fs : FileSystem) (p : Path) : Except Errno (List Name) :=
  match fs.status p with
  | .ok (l, .directory) => .ok (fs.list l)
  | .ok _ => .error .notDirectory
  | .error e => .error e

/-! ## Requests -/

def read (fs : FileSystem) (p : Path) : Except Errno (List UInt8) :=
  match fs.status p with
  | .ok (_, .file bytes) => .ok bytes
  | .ok (_, .directory) => .error .isDirectory
  | .ok _ => .ok []
  | .error e => .error e

/-- A path without the slashes at its end, and whether it had any. -/
def unslashed (p : Path) : Path × Bool :=
  let kept := (p.bytes.reverse.dropWhile (· == slash)).reverse
  if kept = [] then (p, false) else (⟨kept⟩, kept.length < p.bytes.length)

/-- Where a file would be written. A slash at the end of the path asks for a directory, unless the way
there is broken. -/
def writeSpot (fs : FileSystem) (p : Path) : Except Errno Spot :=
  let (bare, slashed) := unslashed p
  if slashed then
    match fs.locate false bare with
    | .error e => .error e
    | .ok _ => .error .isDirectory
  else fs.locate true p

/-- Writes a file: what was in it before is gone, and a missing one is made. -/
def write (fs : FileSystem) (p : Path) (bytes : List UInt8) : Except Errno FileSystem :=
  match fs.writeSpot p with
  | .ok (.found l (.file _)) => .ok (fs.put l (.file bytes))
  | .ok (.found _ .directory) => .error .isDirectory
  | .ok (.found _ _) => .ok fs
  | .ok (.free l) => .ok (fs.put l (.file bytes))
  | .error e => .error e

/-- Makes a directory in an existing one. -/
def makeDirectory (fs : FileSystem) (p : Path) : Except Errno FileSystem :=
  match fs.locate false (unslashed p).1 with
  | .ok (.found _ _) => .error .alreadyExists
  | .ok (.free l) => .ok (fs.put l .directory)
  | .error e => .error e

/-- Makes the first of some paths a directory, each of them being in the next one, which is made
first if it is missing. What was made stays, also if a later step fails. -/
def makeLineage (fs : FileSystem) : List Path → Except Errno Unit × FileSystem
  | [] => (.error .noEntry, fs)
  | p :: parents =>
    if p.bytes = [] then (.ok (), fs)
    else
      match fs.makeDirectory p with
      | .ok fs => (.ok (), fs)
      | .error .noEntry =>
        match makeLineage fs parents with
        | (.error e, fs) => (.error e, fs)
        | (.ok (), fs) =>
          match fs.makeDirectory p with
          | .ok fs => (.ok (), fs)
          | .error e => (if fs.isDirectory p then .ok () else .error e, fs)
      | .error e => (if fs.isDirectory p then .ok () else .error e, fs)

/-- Makes a directory and all that is missing above it. -/
def makeDirectories (fs : FileSystem) (p : Path) : Except Errno Unit × FileSystem :=
  fs.makeLineage p.lineage

/-- Copies a file. The target is emptied before the source is read. -/
def copy (fs : FileSystem) (source target : Path) : Except Errno FileSystem :=
  match fs.read source with
  | .error e => .error e
  | .ok _ =>
    match fs.write target [] with
    | .error e => .error e
    | .ok emptied =>
      match emptied.read source with
      | .error e => .error e
      | .ok bytes => emptied.write target bytes

def makeLink (fs : FileSystem) (p target : Path) : Except Errno FileSystem :=
  match fs.locate false p with
  | .ok (.found _ _) => .error .alreadyExists
  | .ok (.free l) => .ok (fs.put l (.link target))
  | .error e => .error e

/-- Takes away what a path leads to; a link at its end goes itself. -/
def remove (fs : FileSystem) (p : Path) : Except Errno FileSystem :=
  match fs.locate false p with
  | .ok (.found l _) => .ok (fs.erase l)
  | .ok (.free _) => .error .noEntry
  | .error e => .error e

end FileSystem

end Files

end ModelDepot
