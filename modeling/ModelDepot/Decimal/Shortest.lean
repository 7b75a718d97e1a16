/-! # The shortest decimal that names a binary number

A positive finite binary number stands for every real that rounds to it. `shortest` picks, among
the decimals in that interval, one with the fewest digits, and of those the nearest. All of it is
exact arithmetic on natural numbers.
-/

namespace ModelDepot

/-- A decimal `significand * 10 ^ exponent`. -/
structure Decimal where
  significand : Nat
  exponent : Int
  deriving DecidableEq, Repr, Inhabited

namespace Decimal

/-- How many decimal digits a number has; zero has one. -/
def digitCount (n : Nat) : Nat := (Nat.toDigits 10 n).length

/-- The exponent that scientific notation writes: that of the leading digit. -/
def leadingExponent (d : Decimal) : Int := d.exponent + digitCount d.significand - 1

/-- Drops the trailing zeros of the significand, at most `fuel` of them. -/
def stripZeros : Nat → Decimal → Decimal
  | 0, d => d
  | fuel + 1, d =>
    if d.significand % 10 = 0 ∧ d.significand ≠ 0 then
      stripZeros fuel ⟨d.significand / 10, d.exponent + 1⟩
    else d

/-- The same number with no trailing zero in its significand. -/
def normal (d : Decimal) : Decimal := stripZeros (digitCount d.significand) d

end Decimal

/-- A positive binary number `mantissa * 2 ^ exponent`. `narrowBelow` marks the powers of two at
which the numbers below lie twice as close as those above. -/
structure Binary where
  mantissa : Nat
  exponent : Int
  narrowBelow : Bool
  deriving DecidableEq, Repr

namespace Binary

/-- The reals that round to a binary number, over one denominator: the two ends are included
exactly when the mantissa is even. -/
structure Interval where
  low : Nat
  value : Nat
  high : Nat
  denominator : Nat
  closed : Bool
  deriving DecidableEq, Repr

/-- The interval in units of a quarter of the last binary place. -/
def interval (b : Binary) : Interval :=
  let quarter := b.exponent - 2
  let scale := Nat.pow 2 quarter.toNat
  { low := (4 * b.mantissa - (if b.narrowBelow then 1 else 2)) * scale
    value := 4 * b.mantissa * scale
    high := (4 * b.mantissa + 2) * scale
    denominator := Nat.pow 2 (-quarter).toNat
    closed := b.mantissa % 2 = 0 }

namespace Interval

/-- The exponent of the leading decimal digit of the value. -/
def leadingExponent (i : Interval) : Int :=
  if i.denominator ≤ i.value then
    (Decimal.digitCount (i.value / i.denominator) : Int) - 1
  else
    -(Decimal.digitCount ((i.denominator - 1) / i.value) : Int)

/-- The interval measured in units of `10 ^ e`. -/
def inUnitsOf (i : Interval) (e : Int) : Interval :=
  let up := Nat.pow 10 (-e).toNat
  { i with
    low := i.low * up, value := i.value * up, high := i.high * up
    denominator := i.denominator * Nat.pow 10 e.toNat }

/-- The whole number `n` lies in the interval. -/
def holds (i : Interval) (n : Nat) : Bool :=
  let x := n * i.denominator
  if i.closed then i.low ≤ x && x ≤ i.high else i.low < x && x < i.high

/-- The positive whole number of the interval that is nearest to its value, if one of the value's two
neighbours lies in it; a tie goes to the even one. -/
def nearest? (i : Interval) : Option Nat :=
  let below := i.value / i.denominator
  let rest := i.value % i.denominator
  let belowFits := below ≠ 0 && i.holds below
  let aboveFits := i.holds (below + 1)
  if belowFits && aboveFits then
    if 2 * rest < i.denominator then some below
    else if i.denominator < 2 * rest then some (below + 1)
    else if below % 2 = 0 then some below else some (below + 1)
  else if belowFits then some below
  else if aboveFits then some (below + 1)
  else none

/-- The first decimal found on the grids of `digits`, `digits + 1`, … significant places. -/
def firstOn (i : Interval) (leading : Int) (digits : Nat) : Nat → Decimal
  | 0 => ⟨i.value / i.denominator, 0⟩
  | more + 1 =>
    let e := leading - (digits : Int)
    match (i.inUnitsOf e).nearest? with
    | some n => ⟨n, e⟩
    | none => firstOn i leading (digits + 1) more

end Interval

/-- The shortest decimal that rounds to the number; seventeen places always suffice for the formats
in use. -/
def shortest (b : Binary) : Decimal :=
  let i := b.interval
  (i.firstOn i.leadingExponent 0 17).normal

/-- The positive finite double with these bits, the sign left out. -/
def ofDoubleBits (bits : UInt64) : Binary :=
  let biased := ((bits >>> 52) &&& 0x7ff).toNat
  let fraction := (bits &&& 0xfffffffffffff).toNat
  if biased = 0 then ⟨fraction, -1074, false⟩
  else ⟨fraction + 0x10_0000_0000_0000, (biased : Int) - 1075, fraction = 0 ∧ 1 < biased⟩

/-- The positive finite single with these bits, the sign left out. -/
def ofSingleBits (bits : UInt32) : Binary :=
  let biased := ((bits >>> 23) &&& 0xff).toNat
  let fraction := (bits &&& 0x7fffff).toNat
  if biased = 0 then ⟨fraction, -149, false⟩
  else ⟨fraction + 0x80_0000, (biased : Int) - 150, fraction = 0 ∧ 1 < biased⟩

end Binary

end ModelDepot
