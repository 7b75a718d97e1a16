import ModelDepot.Config.Scan
import ModelDepot.Config.Value

/-! # Texts in YAML

A text stands without marks, between single or double quotation marks, or in lines of its own. Only one
without marks may say something else than a text.
-/

namespace ModelDepot

namespace Config

namespace Yaml

open Scan

def isGap (c : Char) : Bool := c == ' ' || c == '\t'

/-- A blank, or the end of a line or of the text. -/
def isEdge : Option Char → Bool
  | none => true
  | some c => isGap c || c == '\n'

/-- A character that has a meaning between brackets. -/
def isFlow (c : Char) : Bool := [',', '[', ']', '\x7b', '\x7d'].contains c

/-- The characters without blanks at their end. -/
def trimEnd (cs : List Char) : List Char := (cs.reverse.dropWhile isGap).reverse

/-- The names of numbers that no number can be made of. -/
def reserved : List String :=
  [".inf", ".Inf", ".INF", "+.inf", "+.Inf", "+.INF", "-.inf", "-.Inf", "-.INF", ".nan", ".NAN"]

/-- A whole number of a base, spelled after two characters that name the base. -/
def based? (mark : String) (base : Nat) (cs : List Char) : Option Value :=
  if mark.toList.isPrefixOf cs && ! cs.contains '_' then
    (digitsOf? base (cs.drop 2)).bind fun n => wholeOf? n
  else none

def plainValue? (s : String) : Option Value :=
  let cs := s.toList
  let whole := (based? "0x" 16 cs).or ((based? "0o" 8 cs).or ((plainInt? 64 s).map .whole))
  if whole.isSome then whole
  else if s = "" ∨ s = "~" ∨ s = "null" then some .nothing
  else if s = "true" then some (.flag true)
  else if s = "false" then some (.flag false)
  else if reserved.contains s then none
  else some (((PlainNumber.ofText? s).map fun x => Value.fraction x.toDouble).getD (.text s))

/-- The part of a line that a text without marks takes: up to a colon or a comment. Between brackets it
ends at whatever has a meaning there; `gap` says that a blank came before. -/
def plainSplit (flow gap : Bool) : List Char → List Char × List Char
  | [] => ([], [])
  | c :: rest =>
    let ends := c == '\n' || (c == '#' && gap) || (flow && isFlow c) ||
      (c == ':' && (isEdge rest.head? || (flow && rest.head?.any isFlow)))
    if ends then ([], c :: rest)
    else
      let (taken, left) := plainSplit flow (isGap c) rest
      (c :: taken, left)

/-- A text without marks may begin here. -/
def beginsPlain (cs : List Char) : Bool :=
  match cs with
  | [] => false
  | c :: rest =>
    if c == '-' || c == '?' || c == ':' then ! isEdge rest.head?
    else ! isFlow c && ! isEdge (some c) && ! "#&*!|>'\"%@\x60".toList.contains c

/-- One line of a text without marks. -/
def plainLine (flow : Bool) : Scan (List Char) := do
  let (taken, left) := plainSplit flow false (← get)
  set left
  return trimEnd taken

/-- So many ends of lines within a text: the first alone is a blank, and with others counts for
nothing. -/
def folded (breaks : Nat) : List Char :=
  if breaks ≤ 1 then [' '] else List.replicate (breaks - 1) '\n'

/-- The end of a document is marked here. -/
def marked (cs : List Char) : Bool :=
  (("---".toList.isPrefixOf cs) || ("...".toList.isPrefixOf cs)) && isEdge cs[3]?

/-- The next lines of a text without marks: they are indented far enough and are no comments. -/
def plainMore (flow : Bool) (least : Nat) : Nat → Scan (List Char)
  | 0 => return []
  | n + 1 => do
    let cs ← get
    let blanks := cs.takeWhile fun c => isGap c || c == '\n'
    let rest := cs.drop blanks.length
    let indent := (blanks.reverse.takeWhile isGap).length
    let line := blanks.reverse.dropWhile isGap
    if line.isEmpty || indent < least || rest.isEmpty || rest.head? = some '#' ||
        (flow && rest.head?.any isFlow) || (indent = 0 && marked rest) ||
        (plainSplit flow true rest).1.isEmpty then
      return []
    else
      set rest
      let more ← plainLine flow
      return folded (line.filter (· == '\n')).length ++ more ++ (← plainMore flow least n)

def plain (flow : Bool) (least n : Nat) : Scan String := do
  if ! beginsPlain (← get) then failure
  let first ← plainLine flow
  return String.ofList (first ++ (← plainMore flow least n))

/-- Blanks between marks: kept within a line, folded at its end. -/
def quotedGap : Scan (List Char) := do
  let blanks ← span isGap
  if (← peek?) = some '\n' then
    let more ← span fun c => isGap c || c == '\n'
    return folded (more.filter (· == '\n')).length
  else return blanks

def escapes : List (Char × Char) :=
  [('0', '\x00'), ('a', '\x07'), ('b', '\x08'), ('t', '\t'), ('\t', '\t'), ('n', '\n'), ('v', '\x0b'),
   ('f', '\x0c'), ('r', '\r'), ('e', '\x1b'), (' ', ' '), ('"', '"'), ('\'', '\''), ('\\', '\\'),
   ('N', '\u0085'), ('_', '\u00a0'), ('L', '\u2028'), ('P', '\u2029'), ('/', '/')]

/-- What an escape stands for; its backslash has been read. -/
def escape : Scan (List Char) := do
  let c ← next
  if c = '\n' then
    let _ ← span fun c => isGap c || c == '\n'
    return []
  if c = 'x' then return [← charOf (← hexNumber 2 0)]
  if c = 'u' then return [← charOf (← hexNumber 4 0)]
  if c = 'U' then return [← charOf (← hexNumber 8 0)]
  return [← (escapes.lookup c).getM]

/-- The rest of a text between marks. Between single ones a mark is written twice. -/
def quotedRest (mark : Char) : Nat → Scan (List Char)
  | 0 => failure
  | n + 1 => do
    match ← peek? with
    | none => failure
    | some c =>
      if isEdge (some c) then
        let blanks ← quotedGap
        return blanks ++ (← quotedRest mark n)
      let _ ← next
      if c = mark then
        if mark = '\'' && (← takes "'") then return '\'' :: (← quotedRest mark n)
        else return []
      else if c = '\\' && mark = '"' then
        let cs ← escape
        return cs ++ (← quotedRest mark n)
      else return c :: (← quotedRest mark n)

/-- A text between marks, if one comes next. -/
def quoted? (n : Nat) : Scan (Option String) := do
  if ← takes "\"" then return some (String.ofList (← quotedRest '"' n))
  if ← takes "'" then return some (String.ofList (← quotedRest '\'' n))
  return none

def line : Scan (List Char) := do
  let cs ← span (· != '\n')
  let _ ← takes "\n"
  return cs

/-- The lines of a text that stands for itself: blank ones and those that are indented far enough. -/
def ownLines (indent : Nat) : Nat → Scan (List (List Char))
  | 0 => return []
  | n + 1 => do
    let cs ← get
    let blanks := (cs.takeWhile (· == ' ')).length
    let c? := cs[blanks]?
    if cs.isEmpty || (blanks < indent && c? ≠ some '\n') then return []
    else
      let text ← line
      return text.drop indent :: (← ownLines indent n)

/-- Lines put together, with the end of a line a blank where both lines begin with text. -/
def foldLinesOf : List (List Char) → List Char
  | [] => []
  | [l] => l
  | l :: more@(next :: _) =>
    let rest := foldLinesOf more
    let text (cs : List Char) := cs.head?.any (! isGap ·)
    if text l && text next then l ++ ' ' :: rest
    else if text l && next.isEmpty then l ++ rest
    else l ++ '\n' :: rest

/-- A text in lines of its own, which are indented at least so far. -/
def ownText (least n : Nat) : Scan String := do
  let literal ← takes "|"
  if ! literal then take ">"
  let marks ← span fun c => c == '+' || c == '-' || c.isDigit
  let rest ← line
  if (rest.dropWhile isGap).head?.any (· != '#') then failure
  let given := (marks.find? Char.isDigit).map fun c => c.toNat - 48
  let first := (← get).dropWhile fun c => c == ' ' || c == '\n'
  let gap := ((← get).take ((← get).length - first.length)).reverse.takeWhile (· == ' ')
  let indent := given.elim (max gap.length least) (least - 1 + ·)
  let lines ← ownLines indent n
  let ending := (lines.reverse.takeWhile (·.isEmpty)).length
  let kept := lines.take (lines.length - ending)
  let text := if literal then List.intercalate ['\n'] kept else foldLinesOf kept
  let tail :=
    if marks.contains '-' || (kept.isEmpty && ! marks.contains '+') then []
    else if marks.contains '+' then List.replicate (ending + if kept.isEmpty then 0 else 1) '\n'
    else ['\n']
  return String.ofList (text ++ tail)

end Yaml

end Config

end ModelDepot
