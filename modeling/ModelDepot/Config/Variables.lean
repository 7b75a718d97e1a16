import ModelDepot.Config.Value

/-! # Settings from the process environment

A variable whose name begins with the prefix of a configuration sets the member that the rest of the
name spells. Case does not count in names. What a value looks like decides what it is.
-/

namespace ModelDepot

namespace Config

/-- What separates the prefix from the rest of a name, and names in the rest from each other. -/
def separator : String := "__"

/-- The letter in lower case. Beyond ASCII this changes the sign for kelvin alone: no other sign has a
lower-case letter of ASCII, and names and words that mean something here have only those. -/
def lowerChar (c : Char) : Char := if c = '\u212a' then 'k' else c.toLower

def lower (s : String) : String := String.ofList (s.toList.map lowerChar)

/-- The key that the name of a variable spells. -/
def keyOf? (configuration : String) (name : String) : Option String :=
  let start := lower (configuration ++ separator)
  let name := lower name
  if name.startsWith start then
    some (String.intercalate "." ((String.ofList (name.toList.drop start.length)).splitOn separator))
  else none

/-- What the value of a variable is: a truth value, a whole number, a number, or else a text. -/
def valueOf (s : String) : Value :=
  if lower s = "true" then .flag true
  else if lower s = "false" then .flag false
  else
    match plainInt? 64 s with
    | some n => .whole n
    | none =>
      match PlainNumber.ofText? s with
      | some x => .fraction x.toDouble
      | none => .text s

def settingsOf (configuration : String) (given : List (String × String)) :
    List (String × Value) :=
  given.filterMap fun v => (keyOf? configuration v.1).map fun k => (k, valueOf v.2)

end Config

end ModelDepot
