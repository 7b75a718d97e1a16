/-! # Reading texts piece by piece

A `Scan` takes something off the front of a text, or fails. What recurs, within a text or after an
item, is given how often it may: no more than the text has characters.
-/

namespace ModelDepot

namespace Config

/-- Reads something off the front of a text. -/
abbrev Scan := StateT (List Char) Option

namespace Scan

variable {α : Type}

def peek? : Scan (Option Char) := do return (← get).head?

def next : Scan Char := do
  match ← get with
  | [] => failure
  | c :: rest => set rest; return c

/-- The characters of a kind that come next. -/
def span (p : Char → Bool) : Scan (List Char) := do
  let cs ← get
  set (cs.dropWhile p)
  return cs.takeWhile p

def takes (s : String) : Scan Bool := do
  let cs ← get
  if s.toList.isPrefixOf cs then
    set (cs.drop s.length)
    return true
  else return false

def take (s : String) : Scan Unit := do
  if ! (← takes s) then failure

def atEnd : Scan Bool := do return (← get).isEmpty

/-- Items up to a closing mark, with commas between them and perhaps one after the last. -/
def commaList (blank : Scan Unit) (close : String) (item : Scan α) : Nat → Scan (List α)
  | 0 => failure
  | n + 1 => do
    blank
    if ← takes close then return []
    let x ← item
    blank
    if ← takes "," then return x :: (← commaList blank close item n)
    take close
    return [x]

/-- What precedes a mark, which is read too. -/
def upToMark (mark : String) : Nat → Scan (List Char)
  | 0 => failure
  | n + 1 => do
    if ← takes mark then return []
    let c ← next
    return c :: (← upToMark mark n)

def hexDigit : Scan Nat := do
  let c ← next
  if '0' ≤ c ∧ c ≤ '9' then return c.toNat - 48
  else if 'a' ≤ c ∧ c ≤ 'f' then return c.toNat - 87
  else if 'A' ≤ c ∧ c ≤ 'F' then return c.toNat - 55
  else failure

/-- The number that so many hexadecimal digits spell. -/
def hexNumber : Nat → Nat → Scan Nat
  | 0, n => return n
  | k + 1, n => do hexNumber k (n * 16 + (← hexDigit))

def charOf (n : Nat) : Scan Char := if n.isValidChar then return Char.ofNat n else failure

/-- The number that digits of a base spell, bars between digits left out. -/
def digitsOf? (base : Nat) (cs : List Char) : Option Nat :=
  let digits := cs.filter (· != '_')
  if digits.isEmpty then none
  else
    digits.foldl (fun n? c => n?.bind fun n =>
      match (hexDigit.run [c]) with
      | some (d, _) => if d < base then some (n * base + d) else none
      | none => none) (some 0)

def foldLines : List Char → List Char
  | [] => []
  | '\r' :: '\n' :: rest => '\n' :: foldLines rest
  | c :: rest => c :: foldLines rest

def whole? (p : Scan α) (cs : List Char) : Option α :=
  match p.run cs with
  | some (x, []) => some x
  | _ => none

end Scan

end Config

end ModelDepot
