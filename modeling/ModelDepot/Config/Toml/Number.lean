import ModelDepot.Config.Toml.Moment
import ModelDepot.Config.Value

/-! # Numbers in TOML

Single bars may stand between the digits of a number. Whole numbers have a base, fractions are finite
or have a name of their own. What begins like a number may be a date or a time.
-/

namespace ModelDepot

namespace Config

namespace Toml

open Scan

/-- A character of a bare word: a key without marks, or a piece of a number. -/
def isBare (c : Char) : Bool := c.isAlphanum || c == '_' || c == '-'

def barsBetween : List Char → Bool
  | [] => false
  | [c] => c != '_'
  | c :: d :: rest => c != '_' && (if d == '_' then barsBetween rest else barsBetween (d :: rest))

/-- The digits and bars at the front of a text, without the bars, and the rest. -/
def grouped? (isDigit : Char → Bool) (cs : List Char) : Option (List Char × List Char) :=
  let (ds, rest) := cs.span fun c => isDigit c || c == '_'
  if barsBetween ds then some (ds.filter (· != '_'), rest) else none

/-- `grouped?` for decimal digits, of which the first is not a superfluous zero. -/
def decimal? (cs : List Char) : Option (List Char × List Char) :=
  (grouped? Char.isDigit cs).bind fun r =>
    if 1 < r.1.length && r.1.head? = some '0' then none else some r

/-- A minus, if there is one, and the rest. -/
def minus : List Char → List Char × List Char
  | '-' :: rest => (['-'], rest)
  | rest => ([], rest)

def based (base : Nat) (cs : List Char) : Scan Value :=
  match grouped? (fun c => (digitsOf? base [c]).isSome) cs with
  | some (ds, []) => ((digitsOf? base ds).bind fun n => wholeOf? n).getM
  | _ => failure

def whole? (cs : List Char) : Option Value :=
  let (sign, cs) := minus cs
  match decimal? cs with
  | some (ds, []) => (plainInt? 64 (String.ofList (sign ++ ds))).map .whole
  | _ => none

/-- The digits of an exponent, given what is left of the word that it began in. The plus of an exponent
ends a word. -/
def exponent : List Char → Scan (List Char)
  | [] => return []
  | c :: rest => do
    if c ≠ 'e' ∧ c ≠ 'E' then failure
    let (sign, rest) ←
      if rest.isEmpty then
        let _ ← takes "+"
        pure ([], ← span isBare)
      else pure (minus rest)
    match grouped? Char.isDigit rest with
    | some (ds, []) => return 'e' :: sign ++ ds
    | _ => failure

/-- A fraction, given its first word, and the word after its point. -/
def fractional (first : List Char) (second : Option (List Char)) : Scan Value := do
  let (sign, first) := minus first
  let (whole, rest) ← (decimal? first).getM
  let (places, rest) ← match second with
    | none => pure ([], rest)
    | some cs => if rest.isEmpty then (grouped? Char.isDigit cs).getM else failure
  let e ← exponent rest
  match PlainNumber.ofText? (String.ofList (sign ++ whole ++ '.' :: places ++ e)) with
  | some n => if n.toDouble.isFinite then return .fraction n.toDouble else failure
  | none => failure

def named : List (String × Float) :=
  [("inf", 1 / 0), ("-inf", -(1 / 0)), ("nan", 0 / 0), ("-nan", 0 / 0)]

def number (cs : List Char) : Scan Value := do
  match cs with
  | '0' :: 'x' :: ds => based 16 ds
  | '0' :: 'o' :: ds => based 8 ds
  | '0' :: 'b' :: ds => based 2 ds
  | _ =>
    if cs.contains 'e' || cs.contains 'E' then fractional cs none
    else if ← takes "." then fractional cs (some (← span isBare))
    else
      match named.lookup (String.ofList cs) with
      | some x => return .fraction x
      | none => (whole? cs).getM

/-- Some exponent in the word is negative. -/
def hasDownExponent : List Char → Bool
  | [] => false
  | [_] => false
  | c :: d :: rest => ((c == 'e' || c == 'E') && d == '-') || hasDownExponent (d :: rest)

def beginsDate (cs : List Char) : Bool :=
  cs.contains 'T' || cs.contains 't' || (cs.tail.contains '-' && ! hasDownExponent cs)

/-- A date or a time, given its first word. A single blank may separate the two. -/
def momentFrom (cs : List Char) : Scan Value := do
  let gap ← match ← get with
    | ' ' :: c :: _ => if isBare c then takes " " else pure false
    | _ => pure false
  let rest ← span fun c => isBare c || c == ':' || c == '.' || c == '+'
  match Scan.whole? moment (cs ++ (if gap then [' '] else []) ++ rest) with
  | some t => return .text (String.ofList t)
  | none => failure

/-- A number, a date or a time, given its first word. -/
def numberOrMoment (cs : List Char) : Scan Value := do
  if beginsDate cs || (← peek?) = some ':' then momentFrom cs else number cs

end Toml

end Config

end ModelDepot
