import ModelDepot.Config.Scan
import ModelDepot.Config.Value

/-! # RON documents

Structures, which may have a name, tuples, lists, maps and options. A structure is a table, a tuple a
list, an option its value or nothing.
-/

namespace ModelDepot

namespace Config

namespace Ron

open Scan

def isSpace (c : Char) : Bool := c == ' ' || c == '\t' || c == '\n' || c == '\r'

/-- The rest of a comment between marks, in which others may be nested. -/
def commentRest : Nat → Nat → Scan Unit
  | 0, _ => failure
  | n + 1, depth => do
    if ← takes "*/" then
      if depth = 0 then return else commentRest n (depth - 1)
    else if ← takes "/*" then commentRest n (depth + 1)
    else
      let _ ← next
      commentRest n depth

def spaces : Nat → Scan Unit
  | 0 => return
  | n + 1 => do
    let _ ← span isSpace
    if ← takes "//" then
      let _ ← span (· != '\n')
      spaces n
    else if ← takes "/*" then
      commentRest n 0
      spaces n

/-- What an escape stands for; its backslash has been read. -/
def escape : Scan Char := do
  let c ← next
  if c = 'x' then return ← charOf (← hexNumber 2 0)
  if c = 'u' then
    take "\x7b"
    let ds ← span fun c => c != '}'
    take "\x7d"
    match digitsOf? 16 ds with
    | some n => if ds.length ≤ 6 then return ← charOf n else failure
    | none => failure
  ([('\'', '\''), ('"', '"'), ('\\', '\\'), ('n', '\n'), ('r', '\r'), ('t', '\t'), ('0', '\x00')].lookup
    c).getM

def textRest : Nat → Scan (List Char)
  | 0 => failure
  | n + 1 => do
    let c ← next
    if c = '"' then return []
    let c ← if c = '\\' then escape else pure c
    return c :: (← textRest n)

/-- A string, a raw string or a character, if one comes next. -/
def text? (n : Nat) : Scan (Option String) := do
  if ← takes "\"" then return some (String.ofList (← textRest n))
  if ← takes "'" then
    let c ← next
    let c ← if c = '\\' then escape else pure c
    take "'"
    return some (String.singleton c)
  match ← get with
  | 'r' :: c :: _ =>
    if c = '"' ∨ c = '#' then
      take "r"
      let marks ← span (· == '#')
      take "\""
      return some (String.ofList (← upToMark (String.ofList ('"' :: marks)) n))
    else return none
  | _ => return none

def isWord (c : Char) : Bool := c.isAlphanum || c == '_'

def name? : Scan (Option (List Char)) := do
  match ← peek? with
  | some c => if isWord c && ! c.isDigit then return some (← span isWord) else return none
  | none => return none

/-- A whole number, which may have a base. -/
def whole? (negative : Bool) (cs : List Char) : Option Value :=
  let size := match cs with
    | '0' :: 'x' :: ds => digitsOf? 16 ds
    | '0' :: 'b' :: ds => digitsOf? 2 ds
    | '0' :: 'o' :: ds => digitsOf? 8 ds
    | ds => digitsOf? 10 ds
  size.bind fun n => wholeOf? (if negative then -n else n)

def number : Scan Value := do
  let minus ← takes "-"
  if ! minus then let _ ← takes "+"
  if minus && (← takes "inf") then return .fraction (-(1 / 0))
  let cs ← span fun c => isWord c || c == '.' || c == '+' || c == '-'
  match whole? minus cs with
  | some v => return v
  | none =>
    match PlainNumber.ofText? (String.ofList ((if minus then ['-'] else []) ++ cs)) with
    | some x => if cs.head?.all Char.isAlpha then failure else return .fraction x.toDouble
    | none => failure

/-- A structure begins with the name of a field, and not with a value. -/
def hasFields (n : Nat) : Scan Bool := do
  let cs ← get
  return (do spaces n; let k ← name?; spaces n; return k.isSome && (← takes ":") : Scan Bool).run cs
    |>.elim false (·.1)

/-- A table from pairs, the last of equal keys kept. -/
def tableOf (ms : List (String × Value)) : Value :=
  .table (ms.foldl (fun t m => Table.set m.1 m.2 t) [])

def value : Nat → Scan Value
  | 0 => failure
  | n + 1 => do
    let pair (key : Scan String) : Scan (String × Value) := do
      let k ← key
      spaces n
      take ":"
      spaces n
      return (k, ← value n)
    if let some s ← text? n then return .text s
    let name ← name?
    if name = some "true".toList then return .flag true
    if name = some "false".toList then return .flag false
    if name = some "None".toList then return .nothing
    if name = some "inf".toList then return .fraction (1 / 0)
    if name = some "NaN".toList then return .fraction (0 / 0)
    if name.isSome then spaces n
    if name = some "Some".toList then
      take "("
      spaces n
      let v ← value n
      spaces n
      take ")"
      return v
    if name.isNone && (← takes "()") then return .nothing
    if ← takes "(" then
      if ← hasFields n then
        return tableOf (← commaList (spaces n) ")"
          (pair do return String.ofList (← (← name?).getM)) n)
      else return .list (← commaList (spaces n) ")" (value n) n)
    if name.isSome then return .nothing
    if ← takes "[" then return .list (← commaList (spaces n) "]" (value n) n)
    if ← takes "\x7b" then
      return tableOf (← commaList (spaces n) "\x7d" (pair do (← text? n).getM) n)
    number

/-- The switches at the start of a document, which change nothing here. -/
def switches : Nat → Scan Unit
  | 0 => return
  | n + 1 => do
    spaces n
    if ← takes "#" then
      for piece in ["!", "[", "enable", "("] do
        spaces n
        take piece
      let _ ← commaList (spaces n) ")" (do
        let k ← (← name?).getM
        if ["unwrap_newtypes", "implicit_some"].contains (String.ofList k) then return
        else failure) n
      spaces n
      take "]"
      switches n

def ofText? (s : String) : Option Value :=
  let cs := s.toList
  let n := cs.length + 1
  Scan.whole? (do switches n; let v ← value n; spaces n; return v) cs

end Ron

end Config

end ModelDepot
