import Mathlib

/-! # Products of doubles

Rounding to a double adds no more than half of a unit in the last of 53 places. So a significand times a power of ten
is not rounded to infinity, unless it is within a few such units of the largest double.
-/

namespace ModelDepot

open Float.Model Float.Model.UnpackedFloat

namespace Double

/-! ## Rounding -/

/-- A mantissa whose last `k` bits have been shifted out; the first of these is set only if they are half of a unit
or more. -/
structure Shifted (m k : Nat) (em : ExtendedMantissa) : Prop where
  mantissa : em.mantissa = m / 2 ^ k
  half : em.roundBit = true → (2 * em.mantissa + 1) * 2 ^ k ≤ 2 * m

theorem shifted (m k : Nat) : Shifted m k ((ExtendedMantissa.ofMantissaAndAccuracy m .exact) >>> k) := by
  change Shifted m k (k.repeat ExtendedMantissa.shiftRightOne ⟨m, false, false⟩)
  induction k with
  | zero => exact ⟨by simp [Nat.repeat], by simp [Nat.repeat]⟩
  | succ k ih =>
    rw [Nat.repeat]
    generalize Nat.repeat ExtendedMantissa.shiftRightOne k ⟨m, false, false⟩ = em at ih ⊢
    obtain ⟨mantissa, half⟩ := ih
    refine ⟨?_, fun odd => ?_⟩
    · rw [ExtendedMantissa.shiftRightOne, mantissa, Nat.div_div_eq_div_mul, ← Nat.pow_succ]
    · have odd : em.mantissa % 2 = 1 := by
        simp only [ExtendedMantissa.shiftRightOne, bne_iff_ne, ne_eq] at odd
        omega
      have whole : em.mantissa * 2 ^ k ≤ m := by
        rw [mantissa]
        exact Nat.div_mul_le_self m (2 ^ k)
      simp only [ExtendedMantissa.shiftRightOne]
      rw [show 2 * (em.mantissa / 2) + 1 = em.mantissa by omega, Nat.pow_succ]
      linarith

theorem Shifted.rounded {m k : Nat} {em : ExtendedMantissa} (h : Shifted m k em) :
    m / 2 ^ k ≤ em.roundedMantissa ∧ 2 * (em.roundedMantissa * 2 ^ k) ≤ 2 * m + 2 ^ k := by
  obtain ⟨mantissa, half⟩ := h
  have whole : em.mantissa * 2 ^ k ≤ m := by
    rw [mantissa]
    exact Nat.div_mul_le_self m (2 ^ k)
  rw [← mantissa]
  obtain ⟨q, r, s⟩ := em
  cases r with
  | false =>
    have same : (ExtendedMantissa.mk q false s).roundedMantissa = q := by cases s <;> rfl
    rw [same]
    dsimp only at whole
    exact ⟨le_refl q, by linarith [Nat.zero_le (2 ^ k)]⟩
  | true =>
    have near : q ≤ (ExtendedMantissa.mk q true s).roundedMantissa ∧
        (ExtendedMantissa.mk q true s).roundedMantissa ≤ q + 1 := by
      cases s <;> simp only [ExtendedMantissa.roundedMantissa, ExtendedMantissa.accuracy,
        Accuracy.roundToNearestEven] <;> omega
    refine ⟨near.1, ?_⟩
    have := Nat.mul_le_mul_right (2 ^ k) near.2
    have := half rfl
    dsimp only at this
    linarith

theorem targetExponent_eq (m : Nat) (e : Int) :
    Format.binary64.targetExponent (totalExponent m e) = max (m.log2 + e - 52) (-1074) := by
  simp only [Format.targetExponent, totalExponent, Format.mantissaBits, Format.minExponent]
  norm_num
  omega

theorem shiftToTargetExponent_eq (m : Nat) (e : Int) {k : Nat} (target : max (m.log2 + e - 52) (-1074) - e ≤ k)
    (exact' : (k : Int) ≤ max (max (m.log2 + e - 52) (-1074) - e) 0) :
    shiftToTargetExponent .binary64 m e .exact =
      (ExtendedMantissa.ofMantissaAndAccuracy m .exact >>> k, e + k) := by
  have shift : (max (m.log2 + e - 52) (-1074) - e).toNat = k := by omega
  rw [shiftToTargetExponent, targetExponent_eq, shiftToExponent, shift]

theorem Shifted.bounds {m k : Nat} {em : ExtendedMantissa} (h : Shifted m k em) (nonzero : m ≠ 0) (hk : m.log2 = 52 + k) :
    2 ^ 52 ≤ em.roundedMantissa ∧ em.roundedMantissa ≤ 2 ^ 53 ∧
      ∀ e : Int, (em.roundedMantissa : ℚ) * 2 ^ (e + k) ≤ m * 2 ^ e * (1 + 1 / 2 ^ 53) := by
  obtain ⟨above, near⟩ := h.rounded
  have least : 2 ^ 52 * 2 ^ k ≤ m := by
    rw [← Nat.pow_add, ← hk]
    exact Nat.log2_self_le nonzero
  have most : m < 2 ^ 53 * 2 ^ k := by
    rw [← Nat.pow_add, show 53 + k = m.log2 + 1 by omega]
    exact Nat.lt_log2_self
  refine ⟨le_trans ((Nat.le_div_iff_mul_le (Nat.two_pow_pos k)).mpr least) above, ?_, fun e => ?_⟩
  · by_contra more
    have : (2 ^ 53 + 1) * 2 ^ k ≤ em.roundedMantissa * 2 ^ k := Nat.mul_le_mul_right _ (by omega)
    linarith
  · have near' : 2 * ((em.roundedMantissa : ℚ) * 2 ^ k) ≤ 2 * m + 2 ^ k := by exact_mod_cast near
    have least' : (2 : ℚ) ^ 52 * 2 ^ k ≤ m := by exact_mod_cast least
    rw [zpow_add₀ (by norm_num), zpow_natCast]
    calc (em.roundedMantissa : ℚ) * (2 ^ e * 2 ^ k) = (em.roundedMantissa * 2 ^ k) * 2 ^ e := by ring
      _ ≤ (m * (1 + 1 / 2 ^ 53)) * 2 ^ e := by
        refine mul_le_mul_of_nonneg_right ?_ (by positivity)
        linarith
      _ = m * 2 ^ e * (1 + 1 / 2 ^ 53) := by ring

/-- What is smaller than this is not rounded to infinity. -/
def tooLarge : ℚ := (2 ^ 54 - 1) * 2 ^ (970 : Int)

theorem tooLarge_eq : tooLarge = (((2 ^ 54 - 1) * 2 ^ 970 : Nat) : ℚ) := by
  rw [tooLarge, Nat.cast_mul, Nat.cast_pow, ← zpow_natCast]
  norm_num

theorem log2_add_lt {m : Nat} {e : Int} (nonzero : m ≠ 0) (small : (m : ℚ) * 2 ^ e < tooLarge) : m.log2 + e < 1024 := by
  have least : (2 : ℚ) ^ (m.log2 + e : Int) ≤ m * 2 ^ e := by
    rw [zpow_add₀ (by norm_num), zpow_natCast]
    exact mul_le_mul_of_nonneg_right (by exact_mod_cast Nat.log2_self_le nonzero) (by positivity)
  have most : tooLarge < 2 ^ (1024 : Int) := by
    rw [tooLarge, show (1024 : Int) = 54 + 970 by rfl, zpow_add₀ (by norm_num) 54]
    exact mul_lt_mul_of_pos_right (by norm_num) (by positivity)
  exact (zpow_lt_zpow_iff_right₀ (by norm_num)).mp (least.trans_lt (small.trans most))

theorem exponent_le_of_carry {m k : Nat} {e : Int} (near : 2 * (2 ^ 53 * 2 ^ k) ≤ 2 * m + 2 ^ k)
    (small : (m : ℚ) * 2 ^ e < tooLarge) : e + k ≤ 970 := by
  have near' : (2 : ℚ) * (2 ^ 53 * 2 ^ k) ≤ 2 * m + 2 ^ k := by exact_mod_cast near
  have least : (2 ^ 54 - 1 : ℚ) * 2 ^ (k + e - 1 : Int) ≤ m * 2 ^ e := by
    rw [show (k + e - 1 : Int) = k + (e + -1) by ring, zpow_add₀ (by norm_num), zpow_add₀ (by norm_num), zpow_natCast]
    calc (2 ^ 54 - 1 : ℚ) * (2 ^ k * (2 ^ e * 2 ^ (-1 : Int))) = ((2 ^ 54 - 1) * 2 ^ k / 2) * 2 ^ e := by
          norm_num
          ring
      _ ≤ m * 2 ^ e := mul_le_mul_of_nonneg_right (by linarith) (by positivity)
  have powers := (mul_lt_mul_iff_right₀ (by norm_num)).mp (least.trans_lt small)
  have := (zpow_lt_zpow_iff_right₀ (by norm_num)).mp powers
  omega

/-- What is rounded to a number in normal form: a mantissa of 53 bits, and no more added than a unit in `2 ^ 53`. -/
theorem round_normal (s : Sign) {m : Nat} {e : Int} (big : 2 ^ 52 ≤ m) (low : -1074 ≤ e) :
    ∃ m' e' pos, roundWithAccuracy .binary64 s m e .exact = .finite s m' e' pos ∧ 2 ^ 52 ≤ m' ∧ m' < 2 ^ 53 ∧
      m.log2 + e - 52 ≤ e' ∧ (m' : ℚ) * 2 ^ e' ≤ m * 2 ^ e * (1 + 1 / 2 ^ 53) ∧
      ((m : ℚ) * 2 ^ e < tooLarge → e' ≤ 971) := by
  have nonzero : m ≠ 0 := by
    rintro rfl
    simp at big
  obtain ⟨k, hk⟩ : ∃ k, m.log2 = 52 + k := ⟨m.log2 - 52, by have := (Nat.le_log2 nonzero).mpr big; omega⟩
  have shifted := shifted m k
  obtain ⟨low', high, size⟩ := shifted.bounds nonzero hk
  obtain ⟨-, near⟩ := shifted.rounded
  have size := size e
  have first := shiftToTargetExponent_eq m e (k := k) (by omega) (by omega)
  generalize ExtendedMantissa.ofMantissaAndAccuracy m .exact >>> k = em at near first low' high size
  generalize hr : em.roundedMantissa = r at near low' high size
  rcases lt_or_eq_of_le high with short | rfl
  · have log : r.log2 = 52 := (Nat.log2_eq_iff (by omega)).mpr ⟨low', short⟩
    have second := shiftToTargetExponent_eq r (e + k) (k := 0) (by omega) (by omega)
    refine ⟨r, e + k, by omega, ?_, low', short, by omega, size, fun small => ?_⟩
    · have whole : (ExtendedMantissa.ofMantissaAndAccuracy r .exact >>> 0).mantissa = r := rfl
      simp only [roundWithAccuracy, first, hr, second, whole, Nat.cast_zero, add_zero]
      exact dif_neg (by omega)
    · have := log2_add_lt nonzero small
      omega
  · have log : (2 ^ 53).log2 = 53 := Nat.log2_two_pow
    have second := shiftToTargetExponent_eq (2 ^ 53) (e + k) (k := 1) (by omega) (by omega)
    refine ⟨2 ^ 52, e + k + 1, by norm_num, ?_, le_refl _, by norm_num, by omega, ?_, fun small => ?_⟩
    · have whole : (ExtendedMantissa.ofMantissaAndAccuracy (2 ^ 53) .exact >>> 1).mantissa = 2 ^ 52 := rfl
      simp only [roundWithAccuracy, first, hr, second, whole, Nat.cast_one]
      exact dif_neg (by norm_num)
    · rw [zpow_add₀ (by norm_num)]
      norm_num at size ⊢
      linarith
    · have := exponent_le_of_carry near small
      omega

/-! ## Numbers in normal form -/

theorem unpack_pack_normal (s : Sign) {m : Nat} {e : Int} (pos : 0 < m) (big : 2 ^ 52 ≤ m) (short : m < 2 ^ 53)
    (low : -1074 ≤ e) (high : e ≤ 971) :
    ∃ s', (Float.Model.pack (.finite s m e pos)).unpack = .finite s' m e pos := by
  have log : m.log2 = 52 := (Nat.log2_eq_iff (by omega)).mpr ⟨big, short⟩
  have bias : (e + Format.binary64.exponentBias + Format.binary64.mantissaBitsWithoutImplicit).toNat = (e + 1075).toNat := by
    rw [show (Format.binary64.exponentBias : Int) = 1023 from rfl]
    rw [show (Format.binary64.mantissaBitsWithoutImplicit : Int) = 52 from rfl]
    omega
  have notAll : BitVec.ofNat 11 (e + 1075).toNat ≠ -1#11 := by
    intro same
    have := congrArg BitVec.toNat same
    simp at this
    omega
  have notNone : BitVec.ofNat 11 (e + 1075).toNat ≠ 0#11 := by
    intro same
    have := congrArg BitVec.toNat same
    simp at this
    omega
  have mantissa : (1#1 ++ BitVec.ofNat 52 m).toNat = m := by
    rw [BitVec.toNat_append, ← Nat.shiftLeft_add_eq_or_of_lt (BitVec.ofNat 52 m).isLt, BitVec.toNat_ofNat, Nat.shiftLeft_eq]
    simp
    omega
  have packed : UnpackedFloat.pack .binary64 (.finite s m e pos) =
      packComponents .binary64 s (BitVec.ofNat 11 (e + 1075).toNat) (BitVec.ofNat 52 m) := by
    rw [UnpackedFloat.pack]
    simp only [log, bias]
    rw [if_neg (by omega), if_pos (show 52 + 1 = Format.binary64.mantissaBits from rfl)]
  have exponent : ((BitVec.ofNat 11 (e + 1075).toNat).toNat : Int) -
      ((Format.binary64.exponentBias : Nat) + (Format.binary64.mantissaBitsWithoutImplicit : Nat)) = e := by
    rw [show (Format.binary64.exponentBias : Int) = 1023 from rfl]
    rw [show (Format.binary64.mantissaBitsWithoutImplicit : Int) = 52 from rfl]
    simp
    omega
  rw [show (Float.Model.pack (.finite s m e pos)).unpack =
    UnpackedFloat.unpack .binary64 (UnpackedFloat.pack .binary64 (.finite s m e pos)) from rfl, packed, UnpackedFloat.unpack]
  simp only [unpackMantissa_packComponents, unpackExponent_packComponents]
  rw [if_neg notAll, if_neg notNone]
  simp only [mantissa, exponent]
  exact ⟨_, rfl⟩

/-- A double in normal form, not tiny, that is no more than some size. -/
def AtMost (x : Float) (size : ℚ) : Prop :=
  ∃ s m e pos, x.toModel.unpack = .finite s m e pos ∧ 2 ^ 52 ≤ m ∧ m < 2 ^ 53 ∧ -52 ≤ e ∧ (m : ℚ) * 2 ^ e ≤ size

theorem atMost_round (s : Sign) {m : Nat} {e : Int} (big : 2 ^ 52 ≤ m) (low : 0 ≤ m.log2 + e) (least : -1074 ≤ e)
    (small : (m : ℚ) * 2 ^ e < tooLarge) :
    AtMost (.ofModel (.pack (roundWithAccuracy .binary64 s m e .exact))) (m * 2 ^ e * (1 + 1 / 2 ^ 53)) := by
  obtain ⟨m', e', pos, rounded, big', short, low', size, within⟩ := round_normal s big least
  obtain ⟨s', unpacked⟩ := unpack_pack_normal s pos big' short (by omega) (within small)
  exact ⟨s', m', e', pos, by rw [rounded, unpacked], big', short, by omega, size⟩

theorem AtMost.not_isInf {x : Float} {size : ℚ} (h : AtMost x size) : x.isInf = false := by
  obtain ⟨s, m, e, pos, unpacked, -⟩ := h
  rw [Float.isInf, Float.Model.isInf, unpacked]
  rfl

theorem AtMost.mul {x y : Float} {p q : ℚ} (hx : AtMost x p) (hy : AtMost y q) (small : p * q < tooLarge) :
    (x * y).isInf = false := by
  obtain ⟨s, m, e, pos, unpacked, big, short, low, within⟩ := hx
  obtain ⟨s', m', e', pos', unpacked', big', short', low', within'⟩ := hy
  have product : (x * y) = .ofModel (.pack (roundWithAccuracy .binary64 (s * s') (m * m') (e + e') .exact)) := by
    change Float.ofModel (.pack (UnpackedFloat.mul .binary64 x.toModel.unpack y.toModel.unpack)) = _
    rw [unpacked, unpacked', UnpackedFloat.mul]
  have big'' : 2 ^ 104 ≤ m * m' := by
    rw [show 104 = 52 + 52 by rfl, Nat.pow_add]
    exact Nat.mul_le_mul big big'
  have log : 104 ≤ (m * m').log2 := (Nat.le_log2 (by positivity)).mpr big''
  have size : ((m * m' : Nat) : ℚ) * 2 ^ (e + e') < tooLarge := by
    refine lt_of_le_of_lt ?_ small
    rw [zpow_add₀ (by norm_num), Nat.cast_mul, mul_mul_mul_comm]
    exact mul_le_mul within within' (by positivity) (le_trans (by positivity) within)
  rw [product]
  exact (atMost_round _ (by omega) (by omega) (by omega) size).not_isInf

/-! ## Significands and powers of ten -/

theorem atMost_toFloat {n : Nat} (pos : 0 < n) (fits : n < 2 ^ 64) :
    AtMost n.toUInt64.toFloat (n * (1 + 1 / 2 ^ 53)) := by
  have word : n.toUInt64.toNat = n := by
    rw [Nat.toUInt64, UInt64.toNat_ofNat']
    omega
  have nonzero : n ≠ 0 := by omega
  have target : Format.binary64.targetExponent (totalExponent n 0) = max ((n.log2 : Int) - 52) (-1074) := by
    rw [targetExponent_eq]
    omega
  have made : n.toUInt64.toFloat = .ofModel (.pack (roundWithAccuracy .binary64 .positive
      (n <<< (52 - n.log2)) (-((52 - n.log2 : Nat) : Int)) .exact)) := by
    have shift : (0 - max ((n.log2 : Int) - 52) (-1074)).toNat = 52 - n.log2 := by omega
    change Float.ofModel (.pack (UnpackedFloat.ofInt .binary64 (n.toUInt64.toNat : Int))) = _
    rw [word, UnpackedFloat.ofInt, UnpackedFloat.normalize]
    have sign : compare (n : Int) 0 = .gt := by
      rw [Int.compare_eq_gt]
      omega
    simp only [sign, Int.toNat_natCast, UnpackedFloat.round, target, decreaseExponent, shift]
    rw [zero_sub]
  have log : 2 ^ 52 ≤ n <<< (52 - n.log2) := by
    rw [Nat.shiftLeft_eq]
    calc 2 ^ 52 ≤ 2 ^ n.log2 * 2 ^ (52 - n.log2) := by
          rw [← Nat.pow_add]
          exact Nat.pow_le_pow_right (by decide) (by omega)
      _ ≤ n * 2 ^ (52 - n.log2) := Nat.mul_le_mul_right _ (Nat.log2_self_le nonzero)
  have value : ((n <<< (52 - n.log2) : Nat) : ℚ) * 2 ^ (-((52 - n.log2 : Nat) : Int)) = n := by
    rw [Nat.shiftLeft_eq, Nat.cast_mul, Nat.cast_pow, Nat.cast_ofNat, zpow_neg, zpow_natCast, mul_assoc,
      mul_inv_cancel₀ (by positivity), mul_one]
  have digits : 52 ≤ (n <<< (52 - n.log2)).log2 := (Nat.le_log2 (by positivity)).mpr log
  have small : (n : ℚ) < tooLarge := by
    have : (n : ℚ) < 2 ^ 64 := by exact_mod_cast fits
    refine this.trans (lt_of_lt_of_eq ?_ tooLarge_eq.symm)
    exact_mod_cast (by decide +kernel : 2 ^ 64 < (2 ^ 54 - 1) * 2 ^ 970)
  rw [made]
  have := atMost_round .positive (e := -((52 - n.log2 : Nat) : Int)) log (by omega) (by omega) (value ▸ small)
  rwa [value] at this

theorem atMost_power_of_small : ∀ x < 23,
    (match (Float.ofScientific 1 false x).toModel.unpack with
      | .finite _ m e _ =>
        decide (2 ^ 52 ≤ m ∧ m < 2 ^ 53 ∧ -52 ≤ e ∧ m * 2 ^ e.toNat ≤ 10 ^ x * 2 ^ (-e).toNat)
      | _ => false) = true := by
  decide +kernel

theorem atMost_power {x : Nat} (small : x ≤ 308) : AtMost (Float.ofScientific 1 false x) (10 ^ x * (1 + 1 / 2 ^ 53)) := by
  by_cases few : x < 23
  · have exact' := atMost_power_of_small x few
    split at exact'
    · next s m e pos unpacked =>
      obtain ⟨big, short, low, within⟩ := of_decide_eq_true exact'
      refine ⟨s, m, e, pos, unpacked, big, short, low, ?_⟩
      have within' : (m : ℚ) * 2 ^ e.toNat ≤ 10 ^ x * 2 ^ (-e).toNat := by exact_mod_cast within
      have size : (m : ℚ) * 2 ^ e ≤ 10 ^ x := by
        rw [show e = e.toNat - ((-e).toNat : Int) by omega, zpow_sub₀ (by norm_num), zpow_natCast, zpow_natCast,
          ← mul_div_assoc, div_le_iff₀ (by positivity)]
        exact within'
      exact size.trans (le_mul_of_one_le_right (by positivity) (by norm_num))
    · simp at exact'
  · have made : Float.ofScientific 1 false x = .ofModel (.pack (roundWithAccuracy .binary64 (.positive * .positive)
        (1 <<< 53 * 10 ^ x) (-53) .exact)) := by
      have guards : ¬ ((x : Int) > 2 ^ 11) ∧ ¬ ((x : Int) < -((2 ^ 11 : Int) + Nat.log2 1)) ∧ 0 ≤ (x : Int) := by
        refine ⟨by norm_num; omega, by norm_num; omega, by omega⟩
      rw [Float.ofScientific, dif_neg (by omega), if_neg Bool.false_ne_true]
      change Float.ofModel (.pack (UnpackedFloat.ofScientific .binary64 1 (x : Int))) = _
      rw [UnpackedFloat.ofScientific, dif_neg Nat.one_ne_zero, if_neg guards.1, if_neg guards.2.1, if_pos guards.2.2]
      rfl
    have value : ((1 <<< 53 * 10 ^ x : Nat) : ℚ) * 2 ^ (-53 : Int) = 10 ^ x := by
      rw [Nat.shiftLeft_eq]
      push_cast
      norm_num
      ring
    have big : 2 ^ 53 ≤ 1 <<< 53 * 10 ^ x := by
      rw [Nat.shiftLeft_eq, one_mul]
      exact Nat.le_mul_of_pos_right _ (by positivity)
    have log : 53 ≤ (1 <<< 53 * 10 ^ x).log2 := (Nat.le_log2 (by omega)).mpr big
    have below : (10 : ℚ) ^ x < tooLarge := by
      refine lt_of_le_of_lt (pow_le_pow_right₀ (by norm_num) small) (lt_of_lt_of_eq ?_ tooLarge_eq.symm)
      exact_mod_cast (by decide +kernel : 10 ^ 308 < (2 ^ 54 - 1) * 2 ^ 970)
    rw [made]
    have := atMost_round (.positive * .positive) (e := -53) (by omega) (by omega) (by omega) (value ▸ below)
    rwa [value] at this

/-- What is at least this is within a few units of what is too large. -/
def brink : ℚ := (2 ^ 54 - 5) * 2 ^ (970 : Int)

theorem brink_eq : brink = (((2 ^ 54 - 5) * 2 ^ 970 : Nat) : ℚ) := by
  rw [brink, Nat.cast_mul, Nat.cast_pow, ← zpow_natCast]
  norm_num

/-- **A significand of 64 bits times a power of ten** is finite if it is not on the brink. -/
theorem isInf_product {n x : Nat} (fits : n < 2 ^ 64) (small : x ≤ 308) (below : (n : ℚ) * 10 ^ x ≤ brink) :
    (n.toUInt64.toFloat * Float.ofScientific 1 false x).isInf = false := by
  have power := atMost_power small
  obtain rfl | pos := Nat.eq_zero_or_pos n
  · obtain ⟨s, m, e, pos, unpacked, -⟩ := power
    have zero : (Nat.toUInt64 0).toFloat.toModel.unpack = .zero .positive := rfl
    change (Float.Model.pack (UnpackedFloat.mul .binary64 (Nat.toUInt64 0).toFloat.toModel.unpack
      (Float.ofScientific 1 false x).toModel.unpack)).isInf = false
    rw [zero, unpacked, UnpackedFloat.mul]
    cases s <;> decide +kernel
  · refine (atMost_toFloat pos fits).mul power ?_
    calc (n : ℚ) * (1 + 1 / 2 ^ 53) * (10 ^ x * (1 + 1 / 2 ^ 53)) = n * 10 ^ x * (1 + 1 / 2 ^ 53) ^ 2 := by ring
      _ ≤ brink * (1 + 1 / 2 ^ 53) ^ 2 := mul_le_mul_of_nonneg_right below (by positivity)
      _ < tooLarge := by
        rw [brink, tooLarge, mul_right_comm]
        exact mul_lt_mul_of_pos_right (by norm_num) (by positivity)

end Double

end ModelDepot
