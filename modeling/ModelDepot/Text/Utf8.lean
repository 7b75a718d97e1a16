/-! # Broken UTF-8

Reads any bytes as text. A byte is read at a time; what has been read of a character is kept together
with the ranges that its next bytes must fall into. Where a byte does not fit, what was read so far
becomes one replacement character and the byte starts anew.
-/

namespace ModelDepot

namespace Text

abbrev ByteRange := UInt8 × UInt8

def inRange (b : UInt8) (r : ByteRange) : Bool := r.1 ≤ b && b ≤ r.2

def anyTail : ByteRange := (0x80, 0xbf)

/-- The bits that a first byte contributes, and the ranges of the bytes that must follow it. -/
def lead? (b : UInt8) : Option (Nat × List ByteRange) :=
  if b < 0x80 then some (b.toNat, [])
  else if inRange b (0xc2, 0xdf) then some (b.toNat - 0xc0, [anyTail])
  else if b = 0xe0 then some (0, [(0xa0, 0xbf), anyTail])
  else if b = 0xed then some (0xd, [(0x80, 0x9f), anyTail])
  else if inRange b (0xe1, 0xef) then some (b.toNat - 0xe0, [anyTail, anyTail])
  else if b = 0xf0 then some (0, [(0x90, 0xbf), anyTail, anyTail])
  else if inRange b (0xf1, 0xf3) then some (b.toNat - 0xf0, [anyTail, anyTail, anyTail])
  else if b = 0xf4 then some (4, [(0x80, 0x8f), anyTail, anyTail])
  else none

/-- What stands for bytes that spell no character. -/
def replacement : Char := '\ufffd'

/-- The character being read: its bits so far, and the ranges still to come. -/
structure Pending where
  bits : Nat
  ranges : List ByteRange

/-- Starts a character: what is finished, and what is still being read. -/
def startCharacter (b : UInt8) : List Char × Option Pending :=
  match lead? b with
  | none => ([replacement], none)
  | some (bits, []) => ([Char.ofNat bits], none)
  | some (bits, ranges) => ([], some ⟨bits, ranges⟩)

def readByte (p : Option Pending) (b : UInt8) : List Char × Option Pending :=
  match p with
  | none => startCharacter b
  | some ⟨_, []⟩ => startCharacter b
  | some ⟨bits, r :: ranges⟩ =>
    if inRange b r then
      let bits := bits * 64 + (b.toNat - 0x80)
      if ranges.isEmpty then ([Char.ofNat bits], none) else ([], some ⟨bits, ranges⟩)
    else
      let (cs, p) := startCharacter b
      (replacement :: cs, p)

/-- The characters of bytes, given the character being read. -/
def lossyFrom (p : Option Pending) : List UInt8 → List Char
  | [] => if p.isSome then [replacement] else []
  | b :: rest => let (cs, p) := readByte p b; cs ++ lossyFrom p rest

def lossyChars (bytes : List UInt8) : List Char := lossyFrom none bytes

/-- The text of bytes, replacement characters standing for what is not UTF-8. -/
def lossy (bytes : List UInt8) : String := String.ofList (lossyChars bytes)

/-- The text of bytes that are UTF-8. -/
def ofUtf8? (bytes : List UInt8) : Option String := String.fromUTF8? ⟨bytes.toArray⟩

def utf8 (s : String) : List UInt8 := s.toUTF8.toList

end Text

end ModelDepot
