import ModelDepot.Json.Value

/-! # Number and text tokens

The spelling of a number is checked first and valued second. Its significand is kept in 64 bits:
digits of the whole part that no longer fit raise the exponent, digits of the fraction that no
longer fit are dropped. The value is the significand, as a double, times or divided by a power of
ten; a number too large for a double has no value.
-/

namespace ModelDepot

namespace Json

def digit? (b : UInt8) : Option Nat :=
  if 0x30 ≤ b ∧ b ≤ 0x39 then some (b.toNat - 0x30) else none

def hexDigit? (b : UInt8) : Option Nat :=
  if 0x30 ≤ b ∧ b ≤ 0x39 then some (b.toNat - 0x30)
  else if 0x61 ≤ b ∧ b ≤ 0x66 then some (b.toNat - 0x57)
  else if 0x41 ≤ b ∧ b ≤ 0x46 then some (b.toNat - 0x37)
  else none

/-- The leading decimal digits of a text, and the rest. -/
def takeDigits : List UInt8 → List Nat × List UInt8
  | [] => ([], [])
  | b :: rest =>
    match digit? b with
    | some d => let (ds, more) := takeDigits rest; (d :: ds, more)
    | none => ([], b :: rest)

/-- The spelling of a number: its digits, and the exponent with its sign if one is written. -/
structure NumberToken where
  negative : Bool
  whole : List Nat
  fraction : Option (List Nat)
  exponent : Option (Bool × List Nat)
  deriving DecidableEq, Repr

namespace NumberToken

/-- The optional fraction: a point and at least one digit. -/
def takeFraction : List UInt8 → Option (Option (List Nat) × List UInt8)
  | 0x2e :: rest =>
    match takeDigits rest with
    | ([], _) => none
    | (ds, more) => some (some ds, more)
  | rest => some (none, rest)

/-- The optional exponent: a letter, an optional sign and at least one digit. -/
def takeExponent : List UInt8 → Option (Option (Bool × List Nat) × List UInt8)
  | b :: rest =>
    if b = 0x65 ∨ b = 0x45 then
      let (negative, rest) := match rest with
        | 0x2b :: more => (false, more)
        | 0x2d :: more => (true, more)
        | more => (false, more)
      match takeDigits rest with
      | ([], _) => none
      | (ds, more) => some (some (negative, ds), more)
    else some (none, b :: rest)
  | [] => some (none, [])

def takeMinus : List UInt8 → Bool × List UInt8
  | 0x2d :: rest => (true, rest)
  | rest => (false, rest)

/-- Reads a whole text as a number; a leading zero stands alone. -/
def ofBytes? (text : List UInt8) : Option NumberToken :=
  let (negative, rest) := takeMinus text
  match takeDigits rest with
  | ([], _) => none
  | (0 :: _ :: _, _) => none
  | (whole, rest) =>
    match takeFraction rest with
    | none => none
    | some (fraction, rest) =>
      match takeExponent rest with
      | some (exponent, []) => some ⟨negative, whole, fraction, exponent⟩
      | _ => none

def maxSignificand : Nat := 0xffff_ffff_ffff_ffff

/-- The largest exponent that is told apart from larger ones. -/
def maxExponent : Nat := 0x7fff_ffff

/-- The digits of the whole part that fit, and how many follow them. -/
def wholePart (sig : Nat) : List Nat → Nat × Nat
  | [] => (sig, 0)
  | d :: rest =>
    if sig * 10 + d ≤ maxSignificand then wholePart (sig * 10 + d) rest else (sig, rest.length + 1)

/-- Goes on with the digits of the fraction that fit, and counts them. -/
def fractionPart (sig places : Nat) : List Nat → Nat × Nat
  | [] => (sig, places)
  | d :: rest =>
    if sig * 10 + d ≤ maxSignificand then fractionPart (sig * 10 + d) (places + 1) rest
    else (sig, places)

/-- The number that a list of digits spells. -/
def ofDigits (ds : List Nat) : Nat := ds.foldl (fun n d => n * 10 + d) 0

def clamp (e : Int) : Int := max (-0x8000_0000) (min e maxExponent)

/-- Divides by powers of ten in steps that a double can hold. -/
def divided (x : Float) : Nat → Float
  | e =>
    if e ≤ 308 then x / Float.ofScientific 1 false e
    else if x == 0 then x
    else divided (x / Float.ofScientific 1 false 308) (e - 308)
  termination_by e => e

/-- The significand times a power of ten; absent if that is too large for a double. -/
def scaled? (sig : Nat) (e : Int) : Option Float :=
  let x := sig.toUInt64.toFloat
  if 0 ≤ e then
    if e ≤ 308 then
      let y := x * Float.ofScientific 1 false e.toNat
      if y.isInf then none else some y
    else if sig = 0 then some x
    else none
  else some (divided x e.natAbs)

def toDouble? (t : NumberToken) : Option Float :=
  let (sig, dropped) := wholePart 0 t.whole
  let (sig, places) := fractionPart sig 0 (t.fraction.getD [])
  let start : Int := (dropped : Int) - places
  let size := match t.exponent with
    | none => scaled? sig start
    | some (down, ds) =>
      let e := ofDigits ds
      if maxExponent < e then if sig = 0 ∨ down then some 0 else none
      else scaled? sig (clamp (if down then start - e else start + e))
  size.map fun x => if t.negative then -x else x

/-- The value: whole if it is spelled whole and fits in 64 bits, except that minus zero is a binary
fraction. -/
def toNumber? (t : NumberToken) : Option Number :=
  let n := ofDigits t.whole
  if t.fraction = none ∧ t.exponent = none ∧ n ≤ maxSignificand then
    if ¬ t.negative then some (.whole n)
    else if 0 < n ∧ n ≤ 0x8000_0000_0000_0000 then some (.whole (-n))
    else some (.double (-(n.toUInt64.toFloat)))
  else t.toDouble?.map .double

end NumberToken

def utf8 (c : Char) : List UInt8 := (String.singleton c).toUTF8.toList

/-- The text with these bytes, if they are UTF-8. -/
def unicode? (bytes : List UInt8) : Option String := String.fromUTF8? ⟨bytes.toArray⟩

/-- The number that four hexadecimal digits spell. -/
def hex4? (a b c d : UInt8) : Option Nat := do
  let a ← hexDigit? a
  let b ← hexDigit? b
  let c ← hexDigit? c
  let d ← hexDigit? d
  return ((a * 16 + b) * 16 + c) * 16 + d

/-- A leading and a trailing surrogate make one character. -/
def surrogates (high low : Nat) : Nat := 0x10000 + (high - 0xd800) * 0x400 + (low - 0xdc00)

def shortEscape? (b : UInt8) : Option UInt8 :=
  match b with
  | 0x22 => some 0x22
  | 0x5c => some 0x5c
  | 0x2f => some 0x2f
  | 0x62 => some 0x08
  | 0x66 => some 0x0c
  | 0x6e => some 0x0a
  | 0x72 => some 0x0d
  | 0x74 => some 0x09
  | _ => none

/-- The bytes that the inside of a quoted text stands for. A surrogate that is not one of a pair
stands for nothing. -/
def unescape? : List UInt8 → Option (List UInt8)
  | [] => some []
  | 0x5c :: 0x75 :: a :: b :: c :: d :: 0x5c :: 0x75 :: e :: f :: g :: h :: rest =>
    match hex4? a b c d, hex4? e f g h with
    | some high, some low =>
      if 0xd800 ≤ high ∧ high < 0xdc00 then
        if 0xdc00 ≤ low ∧ low < 0xe000 then
          (unescape? rest).map (utf8 (Char.ofNat (surrogates high low)) ++ ·)
        else none
      else if 0xdc00 ≤ high ∧ high < 0xe000 then none
      else (unescape? (0x5c :: 0x75 :: e :: f :: g :: h :: rest)).map (utf8 (Char.ofNat high) ++ ·)
    | _, _ => none
  | 0x5c :: 0x75 :: a :: b :: c :: d :: rest =>
    match hex4? a b c d with
    | some n =>
      if 0xd800 ≤ n ∧ n < 0xe000 then none else (unescape? rest).map (utf8 (Char.ofNat n) ++ ·)
    | none => none
  | 0x5c :: b :: rest =>
    match shortEscape? b with
    | some c => (unescape? rest).map (c :: ·)
    | none => none
  | b :: rest => (unescape? rest).map (b :: ·)
  termination_by s => s.length

end Json

end ModelDepot
