import ModelDepot.Config.Format
import ModelDepot.Config.Key
import ModelDepot.Files.System

/-! # Configuration files

A file is asked for by its path, or by its path without an ending. The ending of its name says what its
format is.
-/

namespace ModelDepot

namespace Config

open Files (FileSystem Path)

/-- What follows the last dot of a name, unless the name begins there. -/
def extension? (name : Files.Name) : Option Files.Name :=
  let ending := (name.reverse.takeWhile (· != 0x2e)).reverse
  if ending.length + 1 < name.length then some ending else none

/-- The format that the name of a path has. -/
def formatOf? (p : Path) : Option Format :=
  (p.names.getLast?.bind extension?).bind fun e => Format.ofExtension? (Text.lossy e)

/-- The path with an ending after its name. -/
def withEnding (p : Path) (ending : String) : Path :=
  ⟨(p.bytes.reverse.dropWhile (· == Files.slash)).reverse ++ Text.utf8 ("." ++ ending)⟩

/-- The file that is asked for, and its format. A file with the very name comes first; it must have a
known ending. -/
def find? (fs : FileSystem) (p : Path) : Option (Path × Format) :=
  if fs.isFile p then (formatOf? p).map (p, ·)
  else
    let candidates := Format.all.flatMap fun f => f.extensions.map fun e => (withEnding p e, f)
    candidates.find? fun r => fs.isFile r.1

/-- The mark that a text may begin with. -/
def byteOrderMark : List UInt8 := [0xef, 0xbb, 0xbf]

def textOf (bytes : List UInt8) : String :=
  Text.lossy (if byteOrderMark.isPrefixOf bytes then bytes.drop 3 else bytes)

def settingsOfFile? (fs : FileSystem) (p : Path) : Option Table :=
  (find? fs p).bind fun r =>
    match fs.read r.1 with
    | .ok bytes => r.2.table? (textOf bytes)
    | .error _ => none

end Config

end ModelDepot
