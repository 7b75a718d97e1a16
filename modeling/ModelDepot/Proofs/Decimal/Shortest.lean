import Mathlib
import ModelDepot.Decimal.Shortest

/-! # How large the shortest decimal is

The shortest decimal of a binary number lies among the reals that round to it, so that it is larger by no more than
half of the last binary place.
-/

namespace ModelDepot

namespace Decimal

def value (d : Decimal) : ℚ := d.significand * 10 ^ d.exponent

theorem value_stripZeros (fuel : Nat) (d : Decimal) : (stripZeros fuel d).value = d.value := by
  induction fuel generalizing d with
  | zero => rfl
  | succ fuel ih =>
    rw [stripZeros]
    split
    · next zero =>
      rw [ih, value, value, zpow_add₀ (by norm_num), zpow_one]
      have tens : ((d.significand / 10 : Nat) : ℚ) * 10 = d.significand := by
        exact_mod_cast Nat.div_mul_cancel (Nat.dvd_of_mod_eq_zero zero.1)
      rw [← tens]
      ring
    · rfl

end Decimal

namespace Binary

namespace Interval

variable {i : Interval} {n : Nat}

theorem le_high_of_holds (h : i.holds n = true) : n * i.denominator ≤ i.high := by
  simp only [holds] at h
  split at h <;> simp only [Bool.and_eq_true, decide_eq_true_eq] at h <;> omega

theorem holds_of_nearest? (h : i.nearest? = some n) : i.holds n = true := by
  simp only [nearest?] at h
  grind

theorem value_firstOn_le (ordered : i.value ≤ i.high) (positive : 0 < i.denominator) (leading : Int) (digits more : Nat) :
    (i.firstOn leading digits more).value ≤ (i.high : ℚ) / i.denominator := by
  rw [le_div_iff₀ (by exact_mod_cast positive)]
  induction more generalizing digits with
  | zero =>
    have whole : i.value / i.denominator * i.denominator ≤ i.high := (Nat.div_mul_le_self _ _).trans ordered
    rw [firstOn, Decimal.value, zpow_zero, mul_one]
    exact_mod_cast whole
  | succ more ih =>
    rw [firstOn]
    split
    · next n found =>
      generalize leading - (digits : Int) = e at found ⊢
      have within := le_high_of_holds (holds_of_nearest? found)
      simp only [inUnitsOf, Nat.pow_eq] at within
      have within : (n : ℚ) * (i.denominator * 10 ^ e.toNat) ≤ i.high * 10 ^ (-e).toNat := by exact_mod_cast within
      rw [Decimal.value, show e = e.toNat - ((-e).toNat : Int) by omega, zpow_sub₀ (by norm_num), zpow_natCast, zpow_natCast,
        mul_div_assoc', div_mul_eq_mul_div, div_le_iff₀ (by positivity)]
      linarith
    · exact ih _

end Interval

/-- **The shortest decimal** of a number is no more than half of its last place above it. -/
theorem value_shortest_le (b : Binary) : b.shortest.value ≤ (4 * b.mantissa + 2) * 2 ^ (b.exponent - 2) := by
  have ordered : b.interval.value ≤ b.interval.high := by
    simp only [interval]
    exact Nat.mul_le_mul_right _ (by omega)
  have positive : 0 < b.interval.denominator := Nat.pow_pos (by decide)
  refine le_of_eq_of_le (Decimal.value_stripZeros _ _) ((Interval.value_firstOn_le ordered positive _ _ _).trans_eq ?_)
  simp only [interval, Nat.pow_eq]
  generalize b.exponent - 2 = quarter
  rw [show quarter = quarter.toNat - ((-quarter).toNat : Int) by omega, zpow_sub₀ (by norm_num), zpow_natCast, zpow_natCast]
  push_cast
  rw [show (quarter.toNat - ((-quarter).toNat : Int)) = quarter by omega, mul_div_assoc]

end Binary

end ModelDepot
