/-! # Blank characters

The characters that Unicode gives the property `White_Space`.
-/

namespace ModelDepot

namespace Text

def blankRanges : List (Nat × Nat) :=
  [(0x09, 0x0d), (0x20, 0x20), (0x85, 0x85), (0xa0, 0xa0), (0x1680, 0x1680), (0x2000, 0x200a),
   (0x2028, 0x2029), (0x202f, 0x202f), (0x205f, 0x205f), (0x3000, 0x3000)]

def isBlank (c : Char) : Bool := blankRanges.any fun r => r.1 ≤ c.toNat && c.toNat ≤ r.2

def allBlank (s : String) : Bool := s.toList.all isBlank

def skipBlanks (cs : List Char) : List Char := cs.dropWhile isBlank

/-- The text without the given character at its end. -/
def trimEnd (s : String) (c : Char) : String :=
  String.ofList (s.toList.reverse.dropWhile (· == c)).reverse

end Text

end ModelDepot
