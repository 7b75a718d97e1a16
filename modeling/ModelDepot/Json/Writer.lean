import ModelDepot.Decimal.Layout
import ModelDepot.Json.Value

/-! # Writing JSON text

Compact text has no blanks; indented text puts every part on a line of its own, two blanks deeper
than its container, and keeps empty containers closed up. Only quotes, backslashes and control
characters are escaped.
-/

namespace ModelDepot

namespace Json

def hexDigit (n : Nat) : Char := (Nat.digitChar (n % 16)).toLower

def escape (c : Char) : List Char :=
  if c = '"' then ['\\', '"']
  else if c = '\\' then ['\\', '\\']
  else if c.toNat = 0x08 then ['\\', 'b']
  else if c.toNat = 0x09 then ['\\', 't']
  else if c.toNat = 0x0a then ['\\', 'n']
  else if c.toNat = 0x0c then ['\\', 'f']
  else if c.toNat = 0x0d then ['\\', 'r']
  else if c.toNat < 0x20 then
    ['\\', 'u', '0', '0', hexDigit (c.toNat / 16), hexDigit c.toNat]
  else [c]

def quoted (s : String) : String :=
  String.ofList ('"' :: s.toList.flatMap escape ++ ['"'])

/-- A number. What is not finite has no spelling and is written as null. -/
def Number.text : Number → String
  | .whole n => toString n
  | .double x => if x.isFinite then Layout.jsonDouble.double x else "null"
  | .single x => if x.isFinite then Layout.jsonSingle.single x else "null"

mutual

def compact : Json → String
  | .null => "null"
  | .bool b => if b then "true" else "false"
  | .number n => n.text
  | .string s => quoted s
  | .array items => "[" ++ compactItems items ++ "]"
  | .object ms => "\x7b" ++ compactMembers ms ++ "\x7d"

def compactItems : List Json → String
  | [] => ""
  | [v] => v.compact
  | v :: rest => v.compact ++ "," ++ compactItems rest

def compactMembers : List (String × Json) → String
  | [] => ""
  | [(k, v)] => quoted k ++ ":" ++ v.compact
  | (k, v) :: rest => quoted k ++ ":" ++ v.compact ++ "," ++ compactMembers rest

end

def lineStart (level : Nat) : String := "\n" ++ String.ofList (List.replicate (2 * level) ' ')

mutual

/-- The indented text of a value that stands at a level. -/
def indented (level : Nat) : Json → String
  | .array [] => "[]"
  | .array items => "[" ++ indentedItems (level + 1) items ++ lineStart level ++ "]"
  | .object [] => "\x7b\x7d"
  | .object ms => "\x7b" ++ indentedMembers (level + 1) ms ++ lineStart level ++ "\x7d"
  | v => v.compact

def indentedItems (level : Nat) : List Json → String
  | [] => ""
  | [v] => lineStart level ++ v.indented level
  | v :: rest => lineStart level ++ v.indented level ++ "," ++ indentedItems level rest

def indentedMembers (level : Nat) : List (String × Json) → String
  | [] => ""
  | [(k, v)] => lineStart level ++ quoted k ++ ": " ++ v.indented level
  | (k, v) :: rest =>
    lineStart level ++ quoted k ++ ": " ++ v.indented level ++ "," ++ indentedMembers level rest

end

def toBytes (v : Json) : List UInt8 := v.compact.toUTF8.toList

def toIndentedBytes (v : Json) : List UInt8 := (v.indented 0).toUTF8.toList

end Json

end ModelDepot
