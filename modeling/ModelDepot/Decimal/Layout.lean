import ModelDepot.Decimal.Shortest

/-! # How a decimal is laid out as text

A `Layout` holds the decisions of one written form: which numbers are written in full, whether a
whole number keeps a fraction, and how the exponent looks otherwise.
-/

namespace ModelDepot

/-- The written form of a number. -/
structure Layout where
  /-- The leading exponents that are written in full, lowest and highest; all of them if absent. -/
  inFull : Option (Int × Int)
  /-- A whole number keeps the fraction `.0`. -/
  keepsFraction : Bool
  deriving Repr

namespace Layout

/-- Doubles in JSON text: in full from `0.00001` to below `1e16`, always with a fraction. -/
def jsonDouble : Layout := ⟨some (-5, 15), true⟩

/-- Singles in JSON text: in full from `0.000001` to below `1e13`, always with a fraction. -/
def jsonSingle : Layout := ⟨some (-6, 12), true⟩

/-- Numbers in plain text: always in full, whole numbers without a fraction. -/
def plain : Layout := ⟨none, false⟩

/-- The digits of a number, most significant first. -/
def digits (n : Nat) : List Char := Nat.toDigits 10 n

def full (l : Layout) (d : Decimal) : List Char :=
  let ds := digits d.significand
  if 0 ≤ d.exponent then
    ds ++ List.replicate d.exponent.toNat '0' ++ (if l.keepsFraction then ['.', '0'] else [])
  else
    let places := (-d.exponent).toNat
    if places < ds.length then
      ds.take (ds.length - places) ++ '.' :: ds.drop (ds.length - places)
    else
      '0' :: '.' :: List.replicate (places - ds.length) '0' ++ ds

/-- The decimal written with an exponent that always shows its sign. -/
def scientific (d : Decimal) : List Char :=
  let e := d.leadingExponent
  let mantissa :=
    match digits d.significand with
    | [] => []
    | [c] => [c]
    | c :: rest => c :: '.' :: rest
  mantissa ++ 'e' :: (if e < 0 then '-' else '+') :: digits e.natAbs

/-- The decimal as this layout writes it. -/
def write (l : Layout) (d : Decimal) : List Char :=
  match l.inFull with
  | none => l.full d
  | some (lowest, highest) =>
    if lowest ≤ d.leadingExponent ∧ d.leadingExponent ≤ highest then l.full d else scientific d

/-- A finite number from its sign and size; the size is absent for zero. -/
def signed (l : Layout) (negative : Bool) (size : Option Binary) : String :=
  let body := match size with
    | none => if l.keepsFraction then ['0', '.', '0'] else ['0']
    | some b => l.write b.shortest
  String.ofList (if negative then '-' :: body else body)

def double (l : Layout) (x : Float) : String :=
  let bits := x.toBits
  let size := bits &&& 0x7fffffffffffffff
  l.signed (size != bits) (if size = 0 then none else some (.ofDoubleBits size))

def single (l : Layout) (x : Float32) : String :=
  let bits := x.toBits
  let size := bits &&& 0x7fffffff
  l.signed (size != bits) (if size = 0 then none else some (.ofSingleBits size))

end Layout

/-- A double in plain text; what is not finite has a name. -/
def plainDouble (x : Float) : String :=
  if x.isNaN then "NaN" else if x.isInf then (if x < 0 then "-inf" else "inf") else Layout.plain.double x

/-- A single in plain text; what is not finite has a name. -/
def plainSingle (x : Float32) : String :=
  if x.isNaN then "NaN" else if x.isInf then (if x < 0 then "-inf" else "inf") else Layout.plain.single x

end ModelDepot
