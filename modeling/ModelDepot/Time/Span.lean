import ModelDepot.Time.Timestamp

/-! # Lengths of time

A `Span` counts nanoseconds. Its text uses the largest unit that is not larger than the span, with a
fraction of that unit as short as it can be.
-/

namespace ModelDepot

/-- A length of time. -/
structure Span where
  nanos : Nat
  deriving DecidableEq, Repr, Inhabited

namespace Span

def ofMillis (n : Nat) : Span := ⟨n * 1000000⟩

def ofSeconds (n : Nat) : Span := ⟨n * 1000000000⟩

def ofMicros (n : Nat) : Span := ⟨n * 1000⟩

def toMillis (s : Span) : Nat := s.nanos / 1000000

/-- A fraction of a unit, given in units of the last of `places` decimal places. -/
def fraction (places part : Nat) : String :=
  let ds := (Timestamp.padded places part).toList.reverse.dropWhile (· == '0')
  if part = 0 then "" else "." ++ String.ofList ds.reverse

def text (s : Span) : String :=
  let n := s.nanos
  if 1000000000 ≤ n then toString (n / 1000000000) ++ fraction 9 (n % 1000000000) ++ "s"
  else if 1000000 ≤ n then toString (n / 1000000) ++ fraction 6 (n % 1000000) ++ "ms"
  else if 1000 ≤ n then toString (n / 1000) ++ fraction 3 (n % 1000) ++ "µs"
  else toString n ++ "ns"

end Span

end ModelDepot
