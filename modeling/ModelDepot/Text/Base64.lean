/-! # Base64

Bytes as printable text: three bytes are four digits of six bits each, and the digits that a shorter group at the
end lacks are replaced by equals signs.
-/

namespace ModelDepot

namespace Text

/-- The digit of a number below 64. -/
def base64Digit (n : Nat) : Char :=
  if n < 26 then Char.ofNat (65 + n)
  else if n < 52 then Char.ofNat (71 + n)
  else if n < 62 then Char.ofNat (n - 4)
  else if n = 62 then '+'
  else '/'

/-- The four digits of three bytes. -/
def base64Group (a b c : UInt8) : List Char :=
  let n := (a.toNat * 256 + b.toNat) * 256 + c.toNat
  [n / 262144, n / 4096 % 64, n / 64 % 64, n % 64].map base64Digit

def base64 : List UInt8 → List Char
  | a :: b :: c :: rest => base64Group a b c ++ base64 rest
  | [a, b] => (base64Group a b 0).take 3 ++ ['=']
  | [a] => (base64Group a 0 0).take 2 ++ ['=', '=']
  | [] => []

end Text

end ModelDepot
