import ModelDepot.Config.Yaml.Text

/-! # YAML documents

Indentation says what belongs together: the members of a table begin in one column, and so do the dashes
of a list. Between brackets indentation has no meaning. References to other parts of a document are not
known here.
-/

namespace ModelDepot

namespace Config

namespace Yaml

open Scan

def gap : Scan Unit := do let _ ← span isGap

/-- The line holds nothing but a comment. -/
def isIdle (cs : List Char) : Bool := (cs.dropWhile isGap).head?.all (· == '#')

def skipIdle : Nat → Scan Unit
  | 0 => return
  | n + 1 => do
    let cs ← get
    let first := cs.takeWhile (· != '\n')
    if ! cs.isEmpty && isIdle first then
      let _ ← line
      skipIdle n

/-- How far the next line that holds something is indented; absent at the end of the document. -/
def nextIndent? (n : Nat) : Scan (Option Nat) := do
  skipIdle n
  let cs ← get
  if cs.isEmpty || marked cs then return none
  return some (cs.takeWhile (· == ' ')).length

/-- Nothing but a comment is left of the line. -/
def atLineEnd : Scan Bool := do return isIdle ((← get).takeWhile (· != '\n'))

def lineEnd : Scan Unit := do
  if ! (← atLineEnd) then failure
  let _ ← line

/-- A dash before an item of a list. -/
def beginsItem (cs : List Char) : Bool := cs.head? = some '-' && isEdge cs[1]?

/-- The key that a value is: a text, or a whole number's text. -/
def keyOf : Value → Option String
  | .text s => some s
  | .whole n => some (toString n)
  | _ => none

def key (flow : Bool) (n : Nat) : Scan String := do
  match ← quoted? n with
  | some s =>
    gap
    take ":"
    return s
  | none =>
    if ! beginsPlain (← get) then failure
    let cs ← plainLine flow
    gap
    take ":"
    ((plainValue? (String.ofList cs)).bind keyOf).getM

/-- A key with its colon, if one comes next. -/
def key? (flow : Bool) (n : Nat) : Scan (Option String) := do
  match (key flow n).run (← get) with
  | some (k, rest) =>
    set rest
    return some k
  | none => return none

def spaces : Nat → Scan Unit
  | 0 => return
  | n + 1 => do
    let _ ← span fun c => isGap c || c == '\n'
    if (← peek?) = some '#' then
      let _ ← line
      spaces n

/-- A name for what follows, which has no meaning here. -/
def anchor : Scan Unit := do
  if ← takes "&" then
    let _ ← span fun c => ! isEdge (some c)
    gap

/-- A value that brackets or marks delimit, or that is one text; further lines are indented at least so
far. -/
def inline (flow : Bool) (least : Nat) : Nat → Scan Value
  | 0 => failure
  | n + 1 => do
    if let some s ← quoted? n then return .text s
    if ← takes "[" then return .list (← commaList (spaces n) "]" (inline true 0 n) n)
    if ← takes "\x7b" then
      let member := do
        match ← key? true n with
        | some k =>
          spaces n
          if (← peek?).any fun c => c == ',' || c == '}' then return (k, .nothing)
          else return (k, ← inline true 0 n)
        | none => return (← plain true 0 n, .nothing)
      let ms ← commaList (spaces n) "\x7d" member n
      return .table (ms.foldl (fun t m => Table.set m.1 m.2 t) [])
    (plainValue? (← plain flow least n)).getM

mutual

/-- What stands in lines that are indented at least so far. -/
def block : Nat → Nat → Scan Value
  | 0, _ => failure
  | n + 1, least => do
    match ← nextIndent? n with
    | none => return .nothing
    | some i =>
      let cs ← get
      if i < least then return .nothing
      if beginsItem (cs.drop i) then return .list (← sequence n i)
      set (cs.drop i)
      if (← key? false n).isSome then
        set cs
        return .table (← mapping n i [])
      set (cs.drop i)
      anchor
      if (← peek?).any fun c => c == '|' || c == '>' then return .text (← ownText least n)
      let v ← inline false least n
      lineEnd
      return v

/-- The items of a list whose dashes stand in a column. -/
def sequence : Nat → Nat → Scan (List Value)
  | 0, _ => failure
  | n + 1, indent => do
    match ← nextIndent? n with
    | none => return []
    | some i =>
      let cs ← get
      if indent < i then failure
      if i = indent && beginsItem (cs.drop i) then
        set (List.replicate (i + 1) ' ' ++ cs.drop (i + 1))
        let v ← block n (i + 1)
        return v :: (← sequence n indent)
      else return []

/-- The members of a table whose keys begin in a column. -/
def mapping : Nat → Nat → Table → Scan Table
  | 0, _, _ => failure
  | n + 1, indent, t => do
    match ← nextIndent? n with
    | none => return t
    | some i =>
      if indent < i then failure
      if i < indent then return t
      set ((← get).drop i)
      let k ← key false n
      if ! isEdge (← peek?) then failure
      let v ← member n indent
      mapping n indent (Table.set k v t)

/-- The value of a key that begins in a column. -/
def member : Nat → Nat → Scan Value
  | 0, _ => failure
  | n + 1, indent => do
    gap
    anchor
    if ← atLineEnd then
      lineEnd
      match ← nextIndent? n with
      | none => return .nothing
      | some i =>
        if indent < i then block n (indent + 1)
        else if i = indent && beginsItem ((← get).drop i) then return .list (← sequence n indent)
        else return .nothing
    else if (← peek?).any fun c => c == '|' || c == '>' then return .text (← ownText (indent + 1) n)
    else
      let v ← inline false (indent + 1) n
      lineEnd
      return v

end

def directives : Nat → Scan Unit
  | 0 => return
  | n + 1 => do
    skipIdle n
    if (← peek?) = some '%' then
      let _ ← line
      directives n

/-- A text with one document or none. -/
def document (n : Nat) : Scan Value := do
  let _ ← takes "\ufeff"
  directives n
  let cs ← get
  if marked cs && cs.head? = some '-' then set (List.replicate 3 ' ' ++ cs.drop 3)
  let v ← block n 0
  skipIdle n
  if ← takes "..." then lineEnd
  skipIdle n
  return v

def ofText? (s : String) : Option Value :=
  let cs := foldLines s.toList
  Scan.whole? (document (4 * cs.length + 8)) cs

end Yaml

end Config

end ModelDepot
