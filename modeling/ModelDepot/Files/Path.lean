import ModelDepot.Text.Utf8

/-! # Paths

A path is a string of bytes. Slashes separate its pieces, and a path that begins with one is absolute.
Empty pieces and pieces that are a single dot count for nothing, except a dot that begins a relative
path. Nothing here looks at a file system.
-/

namespace ModelDepot

namespace Files

abbrev Name := List UInt8

/-- The byte that separates the pieces of a path. -/
def slash : UInt8 := 0x2f

def dot : Name := [0x2e]

def dotDot : Name := [0x2e, 0x2e]

/-- The pieces between slashes; there is always at least one. -/
def splitSlashes : List UInt8 → List Name
  | [] => [[]]
  | b :: rest =>
    if b = slash then [] :: splitSlashes rest
    else
      match splitSlashes rest with
      | [] => [[b]]
      | p :: ps => (b :: p) :: ps

/-- Pieces put together with slashes between them. -/
def joinSlashes : List Name → List UInt8
  | [] => []
  | [p] => p
  | p :: ps => p ++ slash :: joinSlashes ps

theorem splitSlashes_ne_nil (bytes : List UInt8) : splitSlashes bytes ≠ [] := by
  cases bytes with
  | nil => simp [splitSlashes]
  | cons b rest =>
    rw [splitSlashes]
    split
    · simp
    · split <;> simp

theorem joinSlashes_splitSlashes (bytes : List UInt8) : joinSlashes (splitSlashes bytes) = bytes := by
  induction bytes with
  | nil => rfl
  | cons b rest ih =>
    rw [splitSlashes]
    split
    · next h =>
      obtain ⟨p, ps, hp⟩ := List.exists_cons_of_ne_nil (splitSlashes_ne_nil rest)
      rw [hp] at ih ⊢
      simp [joinSlashes, ih, h]
    · split
      · next h => exact absurd h (splitSlashes_ne_nil rest)
      · next p ps h =>
        rw [h] at ih
        cases ps with
        | nil => simpa [joinSlashes] using ih
        | cons q qs => simpa [joinSlashes] using ih

/-- A path. -/
structure Path where
  bytes : List UInt8
  deriving DecidableEq, Repr, Inhabited

namespace Path

def ofText (s : String) : Path := ⟨Text.utf8 s⟩

/-- The path as a text for people. -/
def text (p : Path) : String := Text.lossy p.bytes

/-- The text of a path whose bytes are text. -/
def text? (p : Path) : Option String := Text.ofUtf8? p.bytes

def root : Path := ⟨[slash]⟩

def isAbsolute (p : Path) : Bool := p.bytes.head? == some slash

def join (p q : Path) : Path :=
  if q.isAbsolute ∨ p.bytes = [] then q
  else if p.bytes.getLast? = some slash then ⟨p.bytes ++ q.bytes⟩
  else ⟨p.bytes ++ slash :: q.bytes⟩

/-- The path of a name in a directory. -/
def child (p : Path) (name : Name) : Path := p.join ⟨name⟩

def isIdle (piece : Name) : Bool := piece.isEmpty || piece == dot

/-- What a path begins with, `/` or a single dot, and the pieces after it. -/
def parts (p : Path) : List UInt8 × List Name :=
  match splitSlashes p.bytes with
  | [] => ([], [])
  | first :: rest =>
    if first = [] then (if rest.isEmpty then ([], []) else ([slash], rest))
    else if first = dot then (dot, rest)
    else ([], first :: rest)

/-- The names of a path, with the steps upward but without idle pieces. -/
def names (p : Path) : List Name := p.parts.2.filter (! isIdle ·)

/-- Pieces without the idle ones at the end. -/
def trimIdle (pieces : List Name) : List Name := (pieces.reverse.dropWhile isIdle).reverse

/-- A path from what it begins with and its pieces. -/
def ofParts (start : List UInt8) (pieces : List Name) : Path :=
  if start = [] then ⟨joinSlashes pieces⟩
  else if start = [slash] then ⟨slash :: joinSlashes pieces⟩
  else ⟨joinSlashes (start :: pieces)⟩

/-- The path without its last name. A path of names that step upward has one too; the root, a single
dot and the empty path have none. -/
def parent? (p : Path) : Option Path :=
  let (start, pieces) := p.parts
  match trimIdle pieces with
  | [] => if start = dot then some ⟨[]⟩ else none
  | kept@(_ :: _) => some (ofParts start (trimIdle kept.dropLast))

/-- A path, its parent, the parent of that, and so on; no more than `n` paths. -/
def lineageFrom : Nat → Path → List Path
  | 0, _ => []
  | n + 1, p =>
    p :: match p.parent? with
      | some q => lineageFrom n q
      | none => []

/-- A path, its parent, the parent of that, and so on: each has one name less. -/
def lineage (p : Path) : List Path := lineageFrom (p.names.length + 2) p

end Path

/-- A place in the file system: the names that lead to it from the root. -/
abbrev Location := List Name

def Location.path (l : Location) : Path := ⟨slash :: joinSlashes l⟩

/-- The location that the names of a path lead to from a location, each step upward taking back the
name before it. -/
def Location.resolve (l : Location) (names : List Name) : Location :=
  names.foldl (fun here n => if n = dotDot then here.dropLast else here ++ [n]) l

end Files

end ModelDepot
