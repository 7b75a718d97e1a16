import ModelDepot.Files.Errno

/-! # Faults of artifact storage -/

namespace ModelDepot

namespace Artifact

/-- Why an artifact operation failed. -/
inductive Error where
  | notFound (what : String)
  | alreadyExists (what : String)
  | invalidLocation (text : String)
  | invalidName (text : String)
  | file (path : String) (cause : Files.Errno)
  | unreadable
  deriving DecidableEq, Repr

namespace Error

/-- The text of an error, the system's words for a fault of the file system given by `words`. -/
def message (words : Files.Errno → String) : Error → String
  | notFound what => "Artifact not found: " ++ what
  | alreadyExists what => "Artifact already exists: " ++ what
  | invalidLocation text => "Invalid artifact URI: " ++ text
  | invalidName text => "Invalid artifact name or version: " ++ text
  | file path cause => "Artifact I/O failed for " ++ path ++ ": " ++ words cause
  | unreadable => "Artifact serialization failed"

end Error

end Artifact

end ModelDepot
