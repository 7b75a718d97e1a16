import ModelDepot.Files.System

/-! # Programs of file requests

A `Program` asks the file system one thing at a time and goes on from the answer. Between two of its
requests others may use the file system too, so a program says more than the function that it
computes when it runs alone.
-/

namespace ModelDepot

namespace Files

/-- A program that ends with a result of type `α`. -/
inductive Program (α : Type) where
  | done (result : α)
  | present (p : Path) (next : Bool → Program α)
  | names (p : Path) (next : Except Errno (List Name) → Program α)
  | read (p : Path) (next : Except Errno (List UInt8) → Program α)
  | makeDirectories (p : Path) (next : Except Errno Unit → Program α)
  | write (p : Path) (bytes : List UInt8) (next : Except Errno Unit → Program α)

namespace Program

variable {α β : Type}

def andThen : Program α → (α → Program β) → Program β
  | done a, f => f a
  | present p next, f => present p fun x => (next x).andThen f
  | names p next, f => names p fun x => (next x).andThen f
  | read p next, f => read p fun x => (next x).andThen f
  | makeDirectories p next, f => makeDirectories p fun x => (next x).andThen f
  | write p bytes next, f => write p bytes fun x => (next x).andThen f

instance : Monad Program where
  pure := done
  bind := andThen

/-- Writes a file and tells how that went. -/
def written (fs : FileSystem) (p : Path) (bytes : List UInt8) : Except Errno Unit × FileSystem :=
  match fs.write p bytes with
  | .ok fs => (.ok (), fs)
  | .error e => (.error e, fs)

def step : Program α → FileSystem → Program α × FileSystem
  | done a, fs => (done a, fs)
  | present p next, fs => (next (fs.present p), fs)
  | names p next, fs => (next (fs.names p), fs)
  | read p next, fs => (next (fs.read p), fs)
  | makeDirectories p next, fs => let (r, fs) := fs.makeDirectories p; (next r, fs)
  | write p bytes next, fs => let (r, fs) := written fs p bytes; (next r, fs)

/-- What a program does when it runs alone. -/
def run : Program α → FileSystem → α × FileSystem
  | done a, fs => (a, fs)
  | present p next, fs => (next (fs.present p)).run fs
  | names p next, fs => (next (fs.names p)).run fs
  | read p next, fs => (next (fs.read p)).run fs
  | makeDirectories p next, fs => let (r, fs) := fs.makeDirectories p; (next r).run fs
  | write p bytes next, fs => let (r, fs) := written fs p bytes; (next r).run fs

theorem run_step (p : Program α) (fs : FileSystem) : (p.step fs).1.run (p.step fs).2 = p.run fs := by
  cases p <;> rfl

theorem run_andThen (p : Program α) (f : α → Program β) (fs : FileSystem) :
    (p.andThen f).run fs = (f (p.run fs).1).run (p.run fs).2 := by
  induction p generalizing fs with
  | done a => rfl
  | present p next ih => exact ih _ fs
  | names p next ih => exact ih _ fs
  | read p next ih => exact ih _ fs
  | makeDirectories p next ih => exact ih _ _
  | write p bytes next ih => exact ih _ _

end Program

end Files

end ModelDepot
