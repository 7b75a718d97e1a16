import ModelDepot.Text.Blank

/-! # Points in time

A `Timestamp` counts seconds since the start of 1970 in UTC. It is written in the form of RFC 3339
with `Z`, and read in a relaxed form of it: blanks may stand between the parts, a blank may separate
date and time, and `UTC` may name the zone.
-/

namespace ModelDepot

/-- A point in time. During a leap second `nanos` lies between one and two thousand million. -/
structure Timestamp where
  seconds : Int
  nanos : Nat
  deriving DecidableEq, Repr, Inhabited

namespace Timestamp

def le (a b : Timestamp) : Bool :=
  a.seconds < b.seconds || (a.seconds == b.seconds && a.nanos ≤ b.nanos)

theorem le_total (a b : Timestamp) : a.le b ∨ b.le a := by
  simp only [le, Bool.or_eq_true, Bool.and_eq_true, decide_eq_true_eq, beq_iff_eq]
  omega

theorem le_trans {a b c : Timestamp} (h : a.le b) (h' : b.le c) : a.le c := by
  simp only [le, Bool.or_eq_true, Bool.and_eq_true, decide_eq_true_eq, beq_iff_eq] at *
  omega

/-! ## The calendar -/

/-- The years of the calendar that have dates. -/
def isYear (y : Int) : Bool := -262143 ≤ y && y ≤ 262142

/-- The year has a 29th of February. -/
def isLeapYear (y : Int) : Bool := y % 4 = 0 && (y % 100 ≠ 0 || y % 400 = 0)

/-- The number of days of a month. -/
def daysInMonth (y : Int) (m : Nat) : Nat :=
  if m = 2 then (if isLeapYear y then 29 else 28)
  else if m = 4 ∨ m = 6 ∨ m = 9 ∨ m = 11 then 30
  else 31

def isDate (y : Int) (m d : Nat) : Bool :=
  isYear y && 1 ≤ m && m ≤ 12 && 1 ≤ d && d ≤ daysInMonth y m

/-- Days from 1970-01-01 to a date. Years are taken to start in March, so that the leap day is last. -/
def daysOfDate (y : Int) (m d : Nat) : Int :=
  let y := if m ≤ 2 then y - 1 else y
  let m := if m ≤ 2 then m + 9 else m - 3
  let era := y / 400
  let yearOfEra := y % 400
  let dayOfYear : Int := (153 * m + 2) / 5 + d - 1
  era * 146097 + (yearOfEra * 365 + yearOfEra / 4 - yearOfEra / 100 + dayOfYear) - 719468

/-- The date that lies a number of days after 1970-01-01. -/
def dateOfDays (days : Int) : Int × Nat × Nat :=
  let z := days + 719468
  let era := z / 146097
  let dayOfEra := z % 146097
  let yearOfEra :=
    (dayOfEra - dayOfEra / 1460 + dayOfEra / 36524 - dayOfEra / 146096) / 365
  let dayOfYear := dayOfEra - (365 * yearOfEra + yearOfEra / 4 - yearOfEra / 100)
  let m := ((5 * dayOfYear + 2) / 153).toNat
  let d := (dayOfYear - (153 * m + 2) / 5 + 1).toNat
  let month := if m < 10 then m + 3 else m - 9
  let year := yearOfEra + era * 400
  (if month ≤ 2 then year + 1 else year, month, d)

/-! ## Writing -/

/-- A number with at least so many digits. -/
def padded (width n : Nat) : String :=
  let ds := Nat.toDigits 10 n
  String.ofList (List.replicate (width - ds.length) '0' ++ ds)

/-- A year; outside four digits it shows its sign. -/
def yearText (y : Int) : String :=
  if 0 ≤ y ∧ y ≤ 9999 then padded 4 y.toNat
  else (if y < 0 then "-" else "+") ++ padded 4 y.natAbs

/-- The fraction of a second in as few groups of three digits as hold it. -/
def fractionText (nanos : Nat) : String :=
  if nanos = 0 then ""
  else if nanos % 1000000 = 0 then "." ++ padded 3 (nanos / 1000000)
  else if nanos % 1000 = 0 then "." ++ padded 6 (nanos / 1000)
  else "." ++ padded 9 nanos

def text (t : Timestamp) : String :=
  let (y, m, d) := dateOfDays (t.seconds / 86400)
  let s := (t.seconds % 86400).toNat
  let leap := 1000000000 ≤ t.nanos
  yearText y ++ "-" ++ padded 2 m ++ "-" ++ padded 2 d ++ "T" ++
    padded 2 (s / 3600) ++ ":" ++ padded 2 (s / 60 % 60) ++ ":" ++
    padded 2 (s % 60 + (if leap then 1 else 0)) ++
    fractionText (if leap then t.nanos - 1000000000 else t.nanos) ++ "Z"

/-! ## Reading -/

/-- Up to `most` leading decimal digits, and the rest. -/
def takeDigits : Nat → List Char → List Char × List Char
  | 0, cs => ([], cs)
  | _, [] => ([], [])
  | most + 1, c :: rest =>
    if c.isDigit then
      let (ds, more) := takeDigits most rest
      (c :: ds, more)
    else ([], c :: rest)

def ofDigits (ds : List Char) : Nat := ds.foldl (fun n c => n * 10 + (c.toNat - 48)) 0

/-- A number of at most `most` digits, after blanks. -/
def number? (most : Nat) (cs : List Char) : Option (Nat × List Char) :=
  match takeDigits most (Text.skipBlanks cs) with
  | ([], _) => none
  | (ds, rest) => some (ofDigits ds, rest)

/-- A year: four digits, or any number of them after a sign. -/
def year? (cs : List Char) : Option (Int × List Char) :=
  let signed (sign : Int) (cs : List Char) : Option (Int × List Char) :=
    match takeDigits cs.length cs with
    | ([], _) => none
    | (ds, rest) => some (sign * ofDigits ds, rest)
  match Text.skipBlanks cs with
  | '-' :: rest => signed (-1) rest
  | '+' :: rest => signed 1 rest
  | rest => (number? 4 rest).map fun (n, more) => ((n : Int), more)

def mark? (c : Char) (cs : List Char) : Option (List Char) :=
  match Text.skipBlanks cs with
  | d :: rest => if c = d then some rest else none
  | [] => none

/-- The fraction of a second in nanoseconds: nine digits count, further ones are skipped. -/
def fraction? (cs : List Char) : Option (Nat × List Char) :=
  match cs with
  | '.' :: rest =>
    match takeDigits 9 rest with
    | ([], _) => none
    | (ds, more) => some (ofDigits ds * Nat.pow 10 (9 - ds.length), more.dropWhile Char.isDigit)
  | _ => some (0, cs)

def twoDigits? : List Char → Option (Nat × List Char)
  | a :: b :: rest =>
    if a.isDigit && b.isDigit then some (ofDigits [a, b], rest) else none
  | _ => none

/-- A zone's seconds ahead of UTC: a letter, a name, or hours and minutes after a sign. -/
def zone? (cs : List Char) : Option (Int × List Char) :=
  let hoursMinutes (sign : Int) (cs : List Char) : Option (Int × List Char) := do
    let (hours, rest) ← twoDigits? cs
    let (minutes, rest) ← twoDigits? (rest.dropWhile fun c => c == ':' || Text.isBlank c)
    if minutes < 60 then some (sign * (hours * 3600 + minutes * 60), rest) else none
  match cs with
  | 'Z' :: rest => some (0, rest)
  | 'z' :: rest => some (0, rest)
  | '+' :: rest => hoursMinutes 1 rest
  | '-' :: rest => hoursMinutes (-1) rest
  | c :: rest =>
    if c.toNat = 0x2212 then hoursMinutes (-1) rest
    else match c.toLower, rest with
      | 'u', t :: k :: more =>
        if t.toLower = 't' ∧ k.toLower = 'c' then some (0, more) else none
      | _, _ => none
  | [] => none

/-- The point in time that a text names. -/
def ofText? (s : String) : Option Timestamp := do
  let (year, rest) ← year? s.toList
  let rest ← mark? '-' rest
  let (month, rest) ← number? 2 rest
  let rest ← mark? '-' rest
  let (day, rest) ← number? 2 rest
  let rest ← match rest with
    | c :: more => if c = 'T' ∨ c = 't' ∨ c = ' ' then some more else none
    | [] => none
  let (hour, rest) ← number? 2 rest
  let rest ← mark? ':' rest
  let (minute, rest) ← number? 2 rest
  let rest ← mark? ':' rest
  let (second, rest) ← number? 2 rest
  let (nanos, rest) ← fraction? rest
  let (ahead, rest) ← zone? (Text.skipBlanks rest)
  if (Text.skipBlanks rest).isEmpty && isDate year month day && hour < 24 && minute < 60 &&
      second ≤ 60 && ahead.natAbs < 86400 then
    let clock : Int := hour * 3600 + minute * 60 + (if second = 60 then 59 else second)
    let seconds := daysOfDate year month day * 86400 + clock - ahead
    if isYear (dateOfDays (seconds / 86400)).1 then
      some ⟨seconds, if second = 60 then nanos + 1000000000 else nanos⟩
    else none
  else none

end Timestamp

end ModelDepot
