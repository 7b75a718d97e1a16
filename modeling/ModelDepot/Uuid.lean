/-! # Model identities

A `Uuid` is written as thirty-two lower-case hexadecimal digits in groups of 8, 4, 4, 4 and 12. It
is read in that form, also in braces or after `urn:uuid:`, or as the bare digits, all in either case.
-/

namespace ModelDepot

/-- Thirty-two hexadecimal digits. -/
structure Uuid where
  digits : List (Fin 16)
  size : digits.length = 32
  deriving DecidableEq

namespace Uuid

def digit? (c : Char) : Option (Fin 16) :=
  if '0' ≤ c ∧ c ≤ '9' then some (Fin.ofNat 16 (c.toNat - 48))
  else if 'a' ≤ c ∧ c ≤ 'f' then some (Fin.ofNat 16 (c.toNat - 87))
  else if 'A' ≤ c ∧ c ≤ 'F' then some (Fin.ofNat 16 (c.toNat - 55))
  else none

def digitChar (d : Fin 16) : Char := Nat.digitChar d.val

def ofDigits? (cs : List Char) : Option Uuid :=
  match cs.mapM digit? with
  | some ds => if h : ds.length = 32 then some ⟨ds, h⟩ else none
  | none => none

/-- The places of the hyphens in the grouped form. -/
def hyphens : List Nat := [8, 13, 18, 23]

def ungrouped? (cs : List Char) : Option (List Char) :=
  if cs.length = 36 ∧ hyphens.all (fun i => cs[i]? == some '-') then
    some (cs.take 8 ++ (cs.drop 9).take 4 ++ (cs.drop 14).take 4 ++ (cs.drop 19).take 4 ++ cs.drop 24)
  else none

/-- The grouped form inside the other forms that a text may have. -/
def bare (cs : List Char) : List Char :=
  if cs.length = 38 ∧ cs.head? = some '\x7b' ∧ cs.getLast? = some '\x7d' then cs.tail.dropLast
  else if cs.length = 45 ∧ (cs.take 9).map Char.toLower = "urn:uuid:".toList then cs.drop 9
  else cs

def ofText? (s : String) : Option Uuid :=
  let cs := s.toList
  if cs.length = 32 then ofDigits? cs else (ungrouped? (bare cs)).bind ofDigits?

def chars (u : Uuid) : List Char :=
  let cs := u.digits.map digitChar
  cs.take 8 ++ '-' :: (cs.drop 8).take 4 ++ '-' :: (cs.drop 12).take 4 ++ '-' ::
    (cs.drop 16).take 4 ++ '-' :: cs.drop 20

def text (u : Uuid) : String := String.ofList u.chars

def shortLength : Nat := 8

/-- The short form: the first eight characters of the written form. -/
def short (u : Uuid) : String := String.ofList (u.chars.take shortLength)

end Uuid

end ModelDepot
