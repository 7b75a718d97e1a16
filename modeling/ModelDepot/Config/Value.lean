import ModelDepot.Decimal.Layout
import ModelDepot.Decimal.Reading

/-! # Configuration values

What a configuration holds, wherever it was written down. Those who use a value say what they need,
and a value of another kind is converted if that makes sense: numbers and truth values have a text,
texts may spell numbers, and numbers are rounded to whole ones.
-/

namespace ModelDepot

namespace Config

/-- A value of a configuration. Whole numbers have 64 bits and a sign. -/
inductive Value where
  | nothing
  | flag (b : Bool)
  | whole (n : Int)
  | fraction (x : Float)
  | text (s : String)
  | list (items : List Value)
  | table (members : List (String × Value))
  deriving Inhabited

/-- The members of a table, each key once. -/
abbrev Table := List (String × Value)

/-- Sets one member of a table; a new one goes to the end. -/
def Table.set (key : String) (value : Value) : Table → Table
  | [] => [(key, value)]
  | (k, v) :: rest => if k = key then (k, value) :: rest else (k, v) :: Table.set key value rest

/-- A number of the size that whole numbers have. -/
def wholeOf? (n : Int) : Option Value :=
  if -0x8000_0000_0000_0000 ≤ n ∧ n < 0x8000_0000_0000_0000 then some (.whole n) else none

/-- A half goes away from zero; what is too small or too large, or no number, goes to the nearest end
of what a word can hold. -/
def wordOfFraction (x : Float) : UInt64 :=
  if x.isNaN then 0 else x.round.toUInt64

/-- The words that stand for one and for zero. -/
def wordOfName? (s : String) : Option UInt64 :=
  let name := String.ofList (s.toList.map Char.toLower)
  if ["true", "on", "yes"].contains name then some 1
  else if ["false", "off", "no"].contains name then some 0
  else none

namespace Value

def asText? : Value → Option String
  | text s => some s
  | flag b => some (if b then "true" else "false")
  | whole n => some (toString n)
  | fraction x => some (plainDouble x)
  | _ => none

/-- The value as a word of 64 bits. -/
def asWord? : Value → Option UInt64
  | whole n => if 0 ≤ n ∧ n < UInt64.size then some (UInt64.ofNat n.toNat) else none
  | fraction x => some (wordOfFraction x)
  | flag b => some (if b then 1 else 0)
  | text s => (wordOfName? s).or ((plainNat? UInt64.size s).map UInt64.ofNat)
  | _ => none

/-- The members of a table; another value has none. -/
def members : Value → Table
  | table ms => ms
  | _ => []

end Value

end Config

end ModelDepot
