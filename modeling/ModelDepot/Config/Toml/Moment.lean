import ModelDepot.Config.Scan

/-! # Dates and times in TOML

A moment is a date, a time of the day, or both, and then an offset from universal time may follow.
A configuration holds its text in one form: a capital letter between date and time, no zeros at the end
of a fraction, no more than nine digits in it.
-/

namespace ModelDepot

namespace Config

namespace Toml

open Scan

def digits : Nat → Scan (List Char)
  | 0 => return []
  | n + 1 => do
    let c ← next
    if c.isDigit then return c :: (← digits n) else failure

/-- A number of two digits, not above a bound. -/
def pair (least most : Nat) : Scan (List Char) := do
  let ds ← digits 2
  match digitsOf? 10 ds with
  | some n => if least ≤ n ∧ n ≤ most then return ds else failure
  | none => failure

def date : Scan (List Char) := do
  let year ← digits 4
  take "-"
  let month ← pair 1 12
  take "-"
  let day ← pair 1 31
  return year ++ '-' :: month ++ '-' :: day

/-- The fraction of a second, if one follows. -/
def fraction : Scan (List Char) := do
  if ! (← takes ".") then return []
  let ds ← span Char.isDigit
  if ds.isEmpty then failure
  let kept := ((ds.take 9).reverse.dropWhile (· == '0')).reverse
  return if kept.isEmpty then [] else '.' :: kept

def time : Scan (List Char) := do
  let hour ← pair 0 24
  take ":"
  let minute ← pair 0 59
  take ":"
  let second ← pair 0 59
  return hour ++ ':' :: minute ++ ':' :: second ++ (← fraction)

/-- An offset, if one follows. One of no hours is written with a plus. -/
def offset : Scan (List Char) := do
  if ← atEnd then return []
  let c ← next
  if c = 'Z' ∨ c = 'z' then return ['Z']
  if c ≠ '+' ∧ c ≠ '-' then failure
  let hours ← digits 2
  take ":"
  let minutes ← digits 2
  return (if hours = ['0', '0'] then '+' else c) :: hours ++ ':' :: minutes

def moment : Scan (List Char) := do
  if (← get)[2]? = some ':' then time
  else
    let d ← date
    if (← takes "T") || (← takes "t") || (← takes " ") then
      let t ← time
      return d ++ 'T' :: t ++ (← offset)
    else return d

end Toml

end Config

end ModelDepot
