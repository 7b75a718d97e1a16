import ModelDepot.Config.Toml.Number
import ModelDepot.Config.Toml.Text

/-! # TOML documents

A document is a list of keys with values, and then of headers with keys and values of their own. A key
has one value. A header opens a table that no other header and no key has made, or adds one more table
to a list of them.
-/

namespace ModelDepot

namespace Config

namespace Toml

open Scan

/-- Where a table comes from: it is on the way to another table, it has a header, or a key with dots
made it. -/
inductive Origin where
  | implied
  | header
  | dotted
  deriving DecidableEq, Repr

/-- What a key stands for: a value, a table that may still grow, or a list of tables of which the last
may still grow. -/
inductive Node where
  | leaf (v : Value)
  | table (origin : Origin) (members : List (String × Node))
  | tables (items : List (List (String × Node)))

/-- The members of a table that may still grow. -/
abbrev Members := List (String × Node)

mutual

def Node.value : Node → Value
  | .leaf v => v
  | .table _ ms => .table (valuesOf ms)
  | .tables items => .list (tablesOf items)

def valuesOf : List (String × Node) → Table
  | [] => []
  | (k, node) :: rest => (k, node.value) :: valuesOf rest

def tablesOf : List (List (String × Node)) → List Value
  | [] => []
  | ms :: rest => .table (valuesOf ms) :: tablesOf rest

end

/-- Another node for a key that has one. -/
def replace (key : String) (node : Node) (ms : Members) : Members :=
  ms.map fun m => if m.1 = key then (key, node) else m

/-- Gives a key with dots a value. -/
def setKey (v : Value) : List String → Members → Option Members
  | [], _ => none
  | [k], ms => if (ms.lookup k).isSome then none else some (ms ++ [(k, .leaf v)])
  | k :: path, ms =>
    match ms.lookup k with
    | none => (setKey v path []).map fun sub => ms ++ [(k, .table .dotted sub)]
    | some (.table .dotted sub) =>
      (setKey v path sub).map fun sub => replace k (.table .dotted sub) ms
    | some _ => none

/-- Puts the table of a header in its place; `listed` says that the header adds to a list. -/
def place (listed : Bool) (body : Members) : List String → Members → Option Members
  | [], _ => none
  | [k], ms =>
    match listed, ms.lookup k with
    | false, none => some (ms ++ [(k, .table .header body)])
    | false, some (.table .implied sub) =>
      if body.any fun m => (sub.lookup m.1).isSome then none
      else some (replace k (.table .header (body ++ sub)) ms)
    | true, none => some (ms ++ [(k, .tables [body])])
    | true, some (.tables items) => some (replace k (.tables (items ++ [body])) ms)
    | _, _ => none
  | k :: path, ms =>
    match ms.lookup k with
    | none => (place listed body path []).map fun sub => ms ++ [(k, .table .implied sub)]
    | some (.table .dotted _) => none
    | some (.table origin sub) =>
      (place listed body path sub).map fun sub => replace k (.table origin sub) ms
    | some (.tables items) =>
      (place listed body path (items.getLast?.getD [])).map fun sub =>
        replace k (.tables (items.dropLast ++ [sub])) ms
    | some (.leaf _) => none

def gap : Scan Unit := do let _ ← span isGap

def comment : Scan Unit := do
  if ← takes "#" then let _ ← span fun c => c == '\t' || ' ' ≤ c

def spaces : Nat → Scan Unit
  | 0 => return
  | n + 1 => do
    let _ ← span isSpace
    if (← peek?) = some '#' then
      comment
      spaces n

/-- The end of a line, before which a comment may stand. -/
def lineEnd : Scan Unit := do
  gap
  comment
  if ! (← atEnd) then take "\n"

def name : Scan String := do
  match ← text? with
  | some (s, multiline) => if multiline then failure else return s
  | none =>
    let cs ← span isBare
    if cs.isEmpty then failure else return String.ofList cs

/-- A key: names with dots between them. -/
def key : Nat → Scan (List String)
  | 0 => failure
  | n + 1 => do
    let k ← name
    gap
    if ← takes "." then
      gap
      return k :: (← key n)
    else return [k]

mutual

def value : Nat → Scan Value
  | 0 => failure
  | n + 1 => do
    if let some (s, _) ← text? then return .text s
    if ← takes "\x7b" then return .table (valuesOf (← inlineTable n true []))
    if ← takes "[" then return .list (← commaList (spaces n) "]" (value n) n)
    if ← takes "+" then
      return ← number (← span isBare)
    let cs ← span isBare
    if cs = "true".toList then return .flag true
    else if cs = "false".toList then return .flag false
    else if cs = "inf".toList || cs = "nan".toList ||
        cs.head?.any (fun c => c == '-' || c.isDigit) then numberOrMoment cs
    else failure

/-- The rest of a table in one line; nothing but a first member may be missing. -/
def inlineTable : Nat → Bool → Members → Scan Members
  | 0, _, _ => failure
  | n + 1, first, ms => do
    gap
    if first && (← takes "\x7d") then return ms
    let k ← key n
    take "="
    gap
    let v ← value n
    let ms ← (setKey v k ms).getM
    gap
    if ← takes "\x7d" then return ms
    take ","
    inlineTable n false ms

end

/-- The keys with values up to the next header. -/
def body (n : Nat) : Nat → Members → Scan Members
  | 0, _ => failure
  | k + 1, ms => do
    spaces n
    if (← atEnd) || (← peek?) = some '[' then return ms
    let path ← key n
    take "="
    gap
    let v ← value n
    lineEnd
    body n k (← (setKey v path ms).getM)

/-- A header's key, and whether it adds to a list. -/
def header (n : Nat) : Scan (Bool × List String) := do
  take "["
  let listed ← takes "["
  gap
  let path ← key n
  take (if listed then "]]" else "]")
  lineEnd
  return (listed, path)

/-- The headers and what belongs to them. -/
def sections (n : Nat) : Nat → Members → Scan Members
  | 0, _ => failure
  | k + 1, root => do
    if ← atEnd then return root
    let (listed, path) ← header n
    let table ← body n n []
    sections n k (← (place listed table path root).getM)

def document (n : Nat) : Scan Members := do
  let _ ← takes "\ufeff"
  sections n n (← body n n [])

def ofText? (s : String) : Option Table :=
  let cs := foldLines s.toList
  (Scan.whole? (document (cs.length + 1)) cs).map valuesOf

end Toml

end Config

end ModelDepot
