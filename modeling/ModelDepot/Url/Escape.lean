import ModelDepot.Text.Utf8

/-! # Percent escapes

Characters that a part of a URL cannot hold are written as their bytes, each as a percent sign and two
upper-case hexadecimal digits. Reading takes every percent sign with two digits as a byte and leaves
all else as it is.
-/

namespace ModelDepot

namespace Url

def hexDigit (n : Nat) : Char := if n < 10 then Char.ofNat (48 + n) else Char.ofNat (55 + n)

def escapeByte (b : UInt8) : List Char := ['%', hexDigit (b.toNat / 16), hexDigit (b.toNat % 16)]

/-- Escapes the controls, the characters beyond ASCII, and those of a set. -/
def escape (reserved : Char → Bool) (cs : List Char) : List Char :=
  cs.flatMap fun c =>
    if c.toNat < 0x20 ∨ 0x7f ≤ c.toNat ∨ reserved c then
      (Text.utf8 (String.singleton c)).flatMap escapeByte
    else [c]

def hexValue? (c : Char) : Option Nat :=
  if '0' ≤ c ∧ c ≤ '9' then some (c.toNat - 48)
  else if 'a' ≤ c ∧ c ≤ 'f' then some (c.toNat - 87)
  else if 'A' ≤ c ∧ c ≤ 'F' then some (c.toNat - 55)
  else none

/-- The bytes that characters with escapes stand for. -/
def unescape : List Char → List UInt8
  | '%' :: a :: b :: rest =>
    match hexValue? a, hexValue? b with
    | some x, some y => UInt8.ofNat (x * 16 + y) :: unescape rest
    | _, _ => 0x25 :: unescape (a :: b :: rest)
  | c :: rest => Text.utf8 (String.singleton c) ++ unescape rest
  | [] => []

def inFragment (c : Char) : Bool := [' ', '"', '<', '>', (Char.ofNat 0x60)].contains c

/-- Reserved in queries; schemes with a host of their own reserve the apostrophe too. -/
def inQuery (special : Bool) (c : Char) : Bool :=
  [' ', '"', '#', '<', '>'].contains c || (special && c == '\'')

def inPath (c : Char) : Bool :=
  inFragment c || ['#', '?', '^', '\x7b', '|', '\x7d'].contains c

/-- Reserved in the name and the password of a user. -/
def inUser (c : Char) : Bool :=
  inPath c || ['/', ':', ';', '=', '@', '[', '\\', ']'].contains c

end Url

end ModelDepot
