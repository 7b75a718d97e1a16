import ModelDepot.Config.Scan
import ModelDepot.Config.Value

/-! # JSON5 documents

JSON with comments, keys without marks, single quotation marks, commas after the last item and more
ways to write a number.
-/

namespace ModelDepot

namespace Config

namespace Json5

open Scan

def endsLine (c : Char) : Bool := c == '\n' || c == '\r' || c == '\u2028' || c == '\u2029'

def isSpace (c : Char) : Bool :=
  endsLine c || ('\u2000' ≤ c && c ≤ '\u200a') ||
    ['\t', '\x0b', '\x0c', ' ', '\u00a0', '\u1680', '\u202f', '\u205f', '\u3000', '\ufeff'].contains c

def spaces : Nat → Scan Unit
  | 0 => return
  | n + 1 => do
    let _ ← span isSpace
    if ← takes "//" then
      let _ ← span (! endsLine ·)
      spaces n
    else if ← takes "/*" then
      let _ ← upToMark "*/" n
      spaces n

/-- What an escape stands for; its backslash has been read. An escaped end of a line stands for nothing,
and a character without a meaning for itself. -/
def escape : Scan (List Char) := do
  if ← takes "\r\n" then return []
  let c ← next
  if endsLine c then return []
  if c = 'x' then return [← charOf (← hexNumber 2 0)]
  if c = 'u' then return [← charOf (← hexNumber 4 0)]
  if '1' ≤ c ∧ c ≤ '9' then failure
  return [([('0', '\x00'), ('b', '\x08'), ('f', '\x0c'), ('n', '\n'), ('r', '\r'), ('t', '\t'),
    ('v', '\x0b')].lookup c).getD c]

def textRest (mark : Char) : Nat → Scan (List Char)
  | 0 => failure
  | n + 1 => do
    let c ← next
    if c = mark then return []
    if c = '\\' then
      let cs ← escape
      return cs ++ (← textRest mark n)
    if endsLine c then failure
    return c :: (← textRest mark n)

def text? (n : Nat) : Scan (Option String) := do
  if ← takes "\"" then return some (String.ofList (← textRest '"' n))
  if ← takes "'" then return some (String.ofList (← textRest '\'' n))
  return none

/-- A character of a word. Beyond ASCII all that are no blanks are taken for letters. -/
def isWord (c : Char) : Bool :=
  c.isAlphanum || c == '$' || c == '_' || ('\x7f' < c && ! isSpace c)

/-- A key: a string or a word. -/
def key (n : Nat) : Scan String := do
  match ← text? n with
  | some s => return s
  | none =>
    let cs ← span isWord
    if cs.head?.all Char.isDigit then failure
    return String.ofList cs

/-- What a number without its sign may be spelled with: no superfluous zero before it. -/
def isWellFormed (cs : List Char) : Bool :=
  match cs with
  | '0' :: c :: _ => ! c.isDigit
  | _ => true

def number : Scan Value := do
  let sign ← span fun c => c == '+' || c == '-'
  if 1 < sign.length then failure
  let negative := sign = ['-']
  if ← takes "Infinity" then return .fraction (if negative then -(1 / 0) else 1 / 0)
  if ← takes "NaN" then return .fraction (0 / 0)
  if (← takes "0x") || (← takes "0X") then
    match digitsOf? 16 (← span Char.isAlphanum), sign with
    | some n, [] => if n < UInt32.size then return .whole n else failure
    | _, _ => failure
  let mantissa ← span fun c => c.isDigit || c == '.'
  if ! isWellFormed mantissa then failure
  let raised := (← takes "e") || (← takes "E")
  let exponent ← if raised then
      let down ← takes "-"
      if ! down then let _ ← takes "+"
      let ds ← span Char.isDigit
      if ds.isEmpty then failure
      pure ('e' :: (if down then ['-'] else []) ++ ds)
    else pure []
  let word := String.ofList ((if negative then ['-'] else []) ++ mantissa ++ exponent)
  if mantissa.contains '.' || raised then
    match PlainNumber.ofText? word with
    | some x => if x.toDouble.isFinite then return .fraction x.toDouble else failure
    | none => failure
  else ((plainInt? 64 word).map Value.whole).getM

def value : Nat → Scan Value
  | 0 => failure
  | n + 1 => do
    if let some s ← text? n then return .text s
    if ← takes "\x7b" then
      let member := do
        let k ← key n
        spaces n
        take ":"
        spaces n
        return (k, ← value n)
      let ms ← commaList (spaces n) "\x7d" member n
      return .table (ms.foldl (fun t m => Table.set m.1 m.2 t) [])
    if ← takes "[" then return .list (← commaList (spaces n) "]" (value n) n)
    if ← takes "null" then return .nothing
    if ← takes "true" then return .flag true
    if ← takes "false" then return .flag false
    number

def ofText? (s : String) : Option Value :=
  let cs := s.toList
  let n := cs.length + 1
  Scan.whole? (do spaces n; let v ← value n; spaces n; return v) cs

end Json5

end Config

end ModelDepot
