import ModelDepot.Decimal.Shortest

/-! # Reading numbers from plain text

A number in plain text is a decimal with an optional point and exponent, or a name for infinity or
for what is not a number. Blanks are not allowed. The value is the nearest binary number.
-/

namespace ModelDepot

/-- What a plain text says a number is. -/
inductive PlainNumber where
  | finite (negative : Bool) (size : Decimal)
  | infinite (negative : Bool)
  | notANumber
  deriving DecidableEq, Repr

namespace PlainNumber

/-- The leading decimal digits, and the rest. -/
def spanDigits (cs : List Char) : List Char × List Char := cs.span Char.isDigit

def ofDigits (ds : List Char) : Nat := ds.foldl (fun n c => n * 10 + (c.toNat - 48)) 0

/-- A sign, if there is one, and the rest. -/
def sign : List Char → Bool × List Char
  | '-' :: rest => (true, rest)
  | '+' :: rest => (false, rest)
  | rest => (false, rest)

/-- The exponent after a number: absent or complete. -/
def exponent? : List Char → Option Int
  | [] => some 0
  | c :: rest =>
    if c = 'e' ∨ c = 'E' then
      let (down, rest) := sign rest
      match spanDigits rest with
      | ([], _) => none
      | (ds, []) => some (if down then -(ofDigits ds : Int) else ofDigits ds)
      | _ => none
    else none

/-- The size of a number spelled with digits. -/
def size? (cs : List Char) : Option Decimal :=
  let (whole, rest) := spanDigits cs
  let (fraction, rest) := match rest with
    | '.' :: more => spanDigits more
    | more => ([], more)
  if whole.isEmpty && fraction.isEmpty then none
  else (exponent? rest).map fun e => ⟨ofDigits (whole ++ fraction), e - fraction.length⟩

def ofText? (s : String) : Option PlainNumber :=
  let (negative, rest) := sign s.toList
  let word := String.ofList (rest.map Char.toLower)
  if word = "inf" ∨ word = "infinity" then some (.infinite negative)
  else if word = "nan" then some .notANumber
  else (size? rest).map (.finite negative)

/-- The power of ten above a decimal: the decimal is smaller than ten to it. -/
def decimalCeiling (d : Decimal) : Int := (Nat.toDigits 10 d.significand).length + d.exponent

/-- The decimal with what no binary number can tell apart put together: beyond `10 ^ 400` all is
infinite, and below `10 ^ -400` all is zero. -/
def bounded (d : Decimal) : Decimal :=
  if d.significand = 0 ∨ decimalCeiling d < -400 then ⟨0, 0⟩
  else if 400 < decimalCeiling d then ⟨1, 400⟩
  else d

def toDouble : PlainNumber → Float
  | finite negative d =>
    let d := bounded d
    let x := Float.ofScientific d.significand (d.exponent < 0) d.exponent.natAbs
    if negative then -x else x
  | infinite negative => if negative then -(1 / 0) else 1 / 0
  | notANumber => 0 / 0

def toSingle : PlainNumber → Float32
  | finite negative d =>
    let d := bounded d
    let x := Float32.ofScientific d.significand (d.exponent < 0) d.exponent.natAbs
    if negative then -x else x
  | infinite negative => if negative then -(1 / 0) else 1 / 0
  | notANumber => 0 / 0

end PlainNumber

/-- A whole number without sign in plain text, below a bound; a plus may stand before it. -/
def plainNat? (bound : Nat) (s : String) : Option Nat :=
  let digits := match s.toList with
    | '+' :: rest => rest
    | rest => rest
  if digits.isEmpty || digits.any (! ·.isDigit) then none
  else
    let n := PlainNumber.ofDigits digits
    if n < bound then some n else none

/-- A whole number with sign in plain text, of so many bits. -/
def plainInt? (bits : Nat) (s : String) : Option Int :=
  let (negative, digits) := PlainNumber.sign s.toList
  if digits.isEmpty || digits.any (! ·.isDigit) then none
  else
    let n : Int := PlainNumber.ofDigits digits
    let n := if negative then -n else n
    let half : Nat := Nat.pow 2 (bits - 1)
    if -half ≤ n ∧ n < half then some n else none

end ModelDepot
