import Mathlib.Tactic.IntervalCases
import ModelDepot.Time.Timestamp

/-! # The calendar

Counting days and naming dates undo each other, and what is named is a date of the calendar.
-/

namespace ModelDepot

namespace Timestamp

/-! ## Days of a cycle -/

/-- A day of a cycle of 400 years: its century, the four years there that it is in, the year of these and the
day of that year. Only the last of four years has a 366th day, and not in every century. -/
structure CycleDay (z : Int) where
  century : Int
  four : Int
  year : Int
  day : Int
  century_bounds : 0 ≤ century ∧ century ≤ 3
  four_bounds : 0 ≤ four ∧ four ≤ 24
  year_bounds : 0 ≤ year ∧ year ≤ 3
  day_bounds : 0 ≤ day ∧ day ≤ 365
  leap : day = 365 → year = 3 ∧ (four < 24 ∨ century = 3)
  sum : z = 36524 * century + 1461 * four + 365 * year + day

theorem exists_cycleDay (z : Int) (low : 0 ≤ z) (high : z < 146097) : Nonempty (CycleDay z) := by
  let century := min (z / 36524) 3
  let rest := z - 36524 * century
  let year := min (rest % 1461 / 365) 3
  refine ⟨⟨century, rest / 1461, year, rest % 1461 - 365 * year, ?_, ?_, ?_, ?_, ?_, ?_⟩⟩ <;> omega

theorem yearOfEra_eq {z : Int} (c : CycleDay z) :
    (z - z / 1460 + z / 36524 - z / 146096) / 365 = 100 * c.century + 4 * c.four + c.year := by
  obtain ⟨d, q, t, u, hd, hq, ht, hu, leap, sum⟩ := c
  -- Only the very last day of the cycle is counted as if it were in a fifth century.
  have centuries : z / 36524 - z / 146096 = d := by
    by_cases last : z = 146096
    · subst last
      omega
    · have below : z / 146096 = 0 := by omega
      have within : 1461 * q + 365 * t + u < 36524 := by omega
      omega
  -- One leap day more has been counted than there were when the four years are almost over.
  have days : z / 1460 = 25 * d + q ∧ 24 * d + q + 365 * t + u ≤ 1459 ∨
      z / 1460 = 25 * d + q + 1 ∧ 1460 ≤ 24 * d + q + 365 * t + u := by omega
  have numerator : z - z / 1460 + z / 36524 - z / 146096 = z - z / 1460 + d := by omega
  rw [numerator]
  obtain ⟨counted, within⟩ | ⟨counted, beyond⟩ := days <;> rw [counted] <;> simp only <;> omega

/-! ## Months -/

/-- A day of a year that starts in March, as a month counted from March and a day of it. Only the last month
has 29 days at most. -/
theorem month_of_day {u : Int} (low : 0 ≤ u) (high : u ≤ 365) {m : Nat} (hm : m = ((5 * u + 2) / 153).toNat) :
    m < 12 ∧ (153 * (m : Int) + 2) / 5 ≤ u ∧
      u - (153 * (m : Int) + 2) / 5 < (if m = 11 then 29 else if m = 1 ∨ m = 3 ∨ m = 6 ∨ m = 8 then 30 else 31) := by
  have whole : (m : Int) = (5 * u + 2) / 153 := by omega
  have few : m < 12 := by omega
  refine ⟨few, ?_⟩
  clear hm
  interval_cases m <;> simp <;> omega

theorem isDate_of_day {y u : Int} (year : isYear (if 306 ≤ u then y + 1 else y) = true) (low : 0 ≤ u) (high : u ≤ 365)
    (leap : u = 365 → isLeapYear (y + 1) = true) {m d : Nat} (hm : m = ((5 * u + 2) / 153).toNat)
    (hd : d = (u - (153 * (m : Int) + 2) / 5 + 1).toNat) :
    isDate (if 306 ≤ u then y + 1 else y) (if 306 ≤ u then m - 9 else m + 3) d = true := by
  obtain ⟨few, first, last⟩ := month_of_day low high hm
  have whole : (m : Int) = (5 * u + 2) / 153 := by omega
  have day : (d : Int) = u - (153 * (m : Int) + 2) / 5 + 1 := by omega
  have late : 306 ≤ u ↔ 10 ≤ m := by omega
  clear hm hd
  simp only [late] at year ⊢
  simp only [isDate, year, Bool.true_and, Bool.and_eq_true, decide_eq_true_eq]
  refine ⟨⟨⟨?_, ?_⟩, by omega⟩, ?_⟩
  · split <;> omega
  · split <;> omega
  · unfold daysInMonth
    by_cases february : m = 11
    · subst february
      by_cases most : u = 365
      · simp [leap most]
        omega
      · simp only [if_true] at last
        simp
        split <;> omega
    · rw [if_neg february] at last
      interval_cases m <;> simp at last ⊢ <;> omega

section
variable {days : Int} (c : CycleDay ((days + 719468) % 146097))

/-- The year, starting in March, that a day is in. -/
def CycleDay.wholeYear (days : Int) {z : Int} (c : CycleDay z) : Int :=
  100 * c.century + 4 * c.four + c.year + (days + 719468) / 146097 * 400

/-- The month of a day, counted from March. -/
def CycleDay.month {z : Int} (c : CycleDay z) : Nat := ((5 * c.day + 2) / 153).toNat

theorem CycleDay.month_lt {z : Int} (c : CycleDay z) : c.month < 10 ↔ ¬ 306 ≤ c.day := by
  obtain ⟨low, high⟩ := c.day_bounds
  unfold CycleDay.month
  omega

theorem CycleDay.month_le {z : Int} (c : CycleDay z) :
    (if 306 ≤ c.day then c.month - 9 else c.month + 3) ≤ 2 ↔ 306 ≤ c.day := by
  obtain ⟨low, high⟩ := c.day_bounds
  unfold CycleDay.month
  split <;> omega

theorem CycleDay.day_eq {z : Int} (c : CycleDay z) :
    let year := 100 * c.century + 4 * c.four + c.year
    z - (365 * year + year / 4 - year / 100) = c.day := by
  obtain ⟨d, q, t, u, hd, hq, ht, hu, -, sum⟩ := c
  have fours : (100 * d + 4 * q + t) / 4 = 25 * d + q := by omega
  have hundreds : (100 * d + 4 * q + t) / 100 = d := by omega
  simp only [fours, hundreds]
  omega

theorem dateOfDays_eq :
    dateOfDays days =
      (if 306 ≤ c.day then c.wholeYear days + 1 else c.wholeYear days,
        if 306 ≤ c.day then c.month - 9 else c.month + 3,
        (c.day - (153 * (c.month : Int) + 2) / 5 + 1).toNat) := by
  unfold dateOfDays
  simp only [yearOfEra_eq c, c.day_eq]
  rw [show ((5 * c.day + 2) / 153).toNat = c.month from rfl]
  simp only [c.month_lt, ite_not, c.month_le]
  rfl

theorem isLeapYear_wholeYear (last : c.day = 365) : isLeapYear (c.wholeYear days + 1) = true := by
  obtain ⟨t3, leap⟩ := c.leap last
  obtain ⟨⟨d0, d3⟩, q0, q24⟩ := And.intro c.century_bounds c.four_bounds
  simp only [isLeapYear, CycleDay.wholeYear, Bool.and_eq_true, Bool.or_eq_true, decide_eq_true_eq, t3]
  generalize (days + 719468) / 146097 = cycle
  refine ⟨by omega, ?_⟩
  obtain few | century := leap
  · exact .inl (by omega)
  · by_cases full : c.four = 24
    · exact .inr (by omega)
    · exact .inl (by omega)

end

theorem isDate_dateOfDays {days : Int} (year : isYear (dateOfDays days).1 = true) :
    isDate (dateOfDays days).1 (dateOfDays days).2.1 (dateOfDays days).2.2 = true := by
  obtain ⟨c⟩ := exists_cycleDay ((days + 719468) % 146097) (by omega) (by omega)
  rw [dateOfDays_eq c] at year ⊢
  exact isDate_of_day year c.day_bounds.1 c.day_bounds.2 (isLeapYear_wholeYear c) rfl rfl

/-- **Counting days undoes naming dates.** -/
theorem daysOfDate_dateOfDays (days : Int) :
    daysOfDate (dateOfDays days).1 (dateOfDays days).2.1 (dateOfDays days).2.2 = days := by
  obtain ⟨c⟩ := exists_cycleDay ((days + 719468) % 146097) (by omega) (by omega)
  obtain ⟨few, first, -⟩ := month_of_day c.day_bounds.1 c.day_bounds.2 (m := c.month) rfl
  have cycle : c.wholeYear days / 400 = (days + 719468) / 146097 ∧
      c.wholeYear days % 400 = 100 * c.century + 4 * c.four + c.year := by
    obtain ⟨⟨d0, d3⟩, ⟨q0, q24⟩, t0, t3⟩ := And.intro c.century_bounds (And.intro c.four_bounds c.year_bounds)
    unfold CycleDay.wholeYear
    generalize (days + 719468) / 146097 = e
    omega
  have day := c.day_eq
  have year : (if 306 ≤ c.day then (if 306 ≤ c.day then c.wholeYear days + 1 else c.wholeYear days) - 1
      else if 306 ≤ c.day then c.wholeYear days + 1 else c.wholeYear days) = c.wholeYear days := by
    split <;> omega
  have month : (if 306 ≤ c.day then (if 306 ≤ c.day then c.month - 9 else c.month + 3) + 9
      else (if 306 ≤ c.day then c.month - 9 else c.month + 3) - 3) = c.month := by
    have := c.month_lt
    split <;> omega
  rw [dateOfDays_eq c]
  simp only [daysOfDate, c.month_le, year, month, cycle]
  generalize 100 * c.century + 4 * c.four + c.year = y at day ⊢
  omega

end Timestamp

end ModelDepot
