import ModelDepot.Config.Scan

/-! # Strings in TOML

A string stands between single or double quotation marks, or between three of them; then it may go
over several lines. Escapes have a meaning between double marks only.
-/

namespace ModelDepot

namespace Config

namespace Toml

open Scan

def isGap (c : Char) : Bool := c == ' ' || c == '\t'

/-- A blank or the end of a line. -/
def isSpace (c : Char) : Bool := isGap c || c == '\n'

/-- A character that stands for itself in a string. -/
def isPlain (c : Char) : Bool := c == '\t' || (' ' ≤ c && c != '\x7f')

/-- What an escape stands for; its backslash has been read. In a string of several lines the end of a
line may be escaped too, which takes away all blanks up to the next character. -/
def escape (multiline : Bool) : Scan (List Char) := do
  let c ← next
  if c = 'u' then return [← charOf (← hexNumber 4 0)]
  if c = 'U' then return [← charOf (← hexNumber 8 0)]
  match [('"', '"'), ('\\', '\\'), ('b', '\x08'), ('f', '\x0c'), ('n', '\n'), ('r', '\r'),
      ('t', '\t')].lookup c with
  | some d => return [d]
  | none =>
    if ! multiline || ! isSpace c then failure
    if c ≠ '\n' then
      let _ ← span isGap
      take "\n"
    let _ ← span isSpace
    return []

/-- The rest of a string up to the marks that end it, which up to two marks of its own may precede. -/
def textRest (mark : Char) (multiline : Bool) : Nat → Scan (List Char)
  | 0 => failure
  | n + 1 => do
    let c ← next
    if c = mark then
      if ! multiline then return []
      let more ← span (· == mark)
      if 4 < more.length then failure
      if 2 ≤ more.length then return more.drop 2
      return mark :: more ++ (← textRest mark multiline n)
    else if c = '\\' && mark = '"' then
      let cs ← escape multiline
      return cs ++ (← textRest mark multiline n)
    else if isPlain c || (multiline && c = '\n') then
      return c :: (← textRest mark multiline n)
    else failure

/-- A string whose first mark is given and has been read, and whether it may have several lines. A
line that ends right after the marks does not count. -/
def text (mark : Char) : Scan (String × Bool) := do
  let marks ← takes (String.ofList [mark, mark])
  if marks then let _ ← takes "\n"
  if ! marks && (← takes (String.singleton mark)) then return ("", false)
  let n := (← get).length
  return (String.ofList (← textRest mark marks n), marks)

/-- A string, if one comes next, and whether it may have several lines. -/
def text? : Scan (Option (String × Bool)) := do
  if ← takes "\"" then return some (← text '"')
  if ← takes "'" then return some (← text '\'')
  return none

end Toml

end Config

end ModelDepot
