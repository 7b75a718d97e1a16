/-! # Faults of the file system -/

namespace ModelDepot

namespace Files

/-- Why the file system refused a request. `invalidPath` is found before the system is asked: the
path holds a zero byte. -/
inductive Errno where
  | noEntry
  | alreadyExists
  | notDirectory
  | isDirectory
  | invalidArgument
  | nameTooLong
  | tooManyLinks
  | invalidPath
  deriving DecidableEq, Repr

namespace Errno

def code? : Errno → Option Nat
  | noEntry => some 2
  | alreadyExists => some 17
  | notDirectory => some 20
  | isDirectory => some 21
  | invalidArgument => some 22
  | nameTooLong => some 36
  | tooManyLinks => some 40
  | invalidPath => none

def words : Errno → String
  | noEntry => "No such file or directory"
  | alreadyExists => "File exists"
  | notDirectory => "Not a directory"
  | isDirectory => "Is a directory"
  | invalidArgument => "Invalid argument"
  | nameTooLong => "File name too long"
  | tooManyLinks => "Too many levels of symbolic links"
  | invalidPath => "file name contained an unexpected NUL byte"

def text (e : Errno) : String :=
  match e.code? with
  | some n => e.words ++ " (os error " ++ toString n ++ ")"
  | none => e.words

end Errno

end Files

end ModelDepot
