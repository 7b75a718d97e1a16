import Mathlib
import ModelDepot.Proofs.Decimal.Products
import ModelDepot.Proofs.Decimal.Shortest
import ModelDepot.Proofs.Json.Numerals

/-! # Every number that is written is read

The text of a number spells a significand and a power of ten whose product is finite. The two largest doubles are too
close to what is too large for that to follow from the size of their texts alone; they are looked at themselves.
-/

namespace ModelDepot

namespace Json

open Double (brink)

/-! ## Tokens -/

namespace NumberToken

theorem isSome_scaled? {n : Nat} {e : Int} (fits : n ≤ maxSignificand) (below : (n : ℚ) * 10 ^ e ≤ brink) :
    (scaled? n e).isSome = true := by
  unfold scaled?
  by_cases up : 0 ≤ e
  · obtain ⟨x, rfl⟩ : ∃ x : Nat, e = x := ⟨e.toNat, by omega⟩
    rw [zpow_natCast] at below
    by_cases few : (x : Int) ≤ 308
    · have finite := Double.isInf_product (n := n) (x := x) (by simp only [maxSignificand] at fits; omega) (by omega) below
      simp only [if_pos up, if_pos few, Int.toNat_natCast, finite, Bool.false_eq_true, if_false, Option.isSome_some]
    · have none' : n = 0 := by
        by_contra some'
        have one : (1 : ℚ) ≤ n := by exact_mod_cast Nat.one_le_iff_ne_zero.mpr some'
        have : (10 : ℚ) ^ 309 ≤ n * 10 ^ x := by
          calc (10 : ℚ) ^ 309 ≤ 10 ^ x := pow_le_pow_right₀ (by norm_num) (by omega)
            _ ≤ n * 10 ^ x := le_mul_of_one_le_left (by positivity) one
        have : (10 : ℚ) ^ 309 ≤ brink := this.trans below
        rw [Double.brink_eq] at this
        exact absurd (by exact_mod_cast this : 10 ^ 309 ≤ (2 ^ 54 - 5) * 2 ^ 970) (by decide +kernel)
      simp only [if_pos up, if_neg few, if_pos none', Option.isSome_some]
  · simp only [if_neg up, Option.isSome_some]

theorem foldl_digits (n : Nat) (ds : List Nat) :
    ds.foldl (fun n d => n * 10 + d) n = n * 10 ^ ds.length + ofDigits ds := by
  induction ds generalizing n with
  | nil => simp [ofDigits]
  | cons d rest ih =>
    have first : ofDigits (d :: rest) = (0 * 10 + d) * 10 ^ rest.length + ofDigits rest := ih (0 * 10 + d)
    rw [List.foldl_cons, ih, first, List.length_cons, pow_succ]
    ring

theorem ofDigits_cons (d : Nat) (ds : List Nat) : ofDigits (d :: ds) = d * 10 ^ ds.length + ofDigits ds := by
  rw [ofDigits, List.foldl_cons, zero_mul, zero_add, foldl_digits]

theorem wholePart_le (sig : Nat) (ds : List Nat) (fits : sig ≤ maxSignificand) :
    (wholePart sig ds).1 ≤ maxSignificand ∧ (wholePart sig ds).2 ≤ ds.length := by
  induction ds generalizing sig with
  | nil => exact ⟨fits, le_refl 0⟩
  | cons d rest ih =>
    rw [wholePart]
    split
    · next more => exact (ih _ more).imp_right fun h => h.trans (by simp)
    · exact ⟨fits, le_refl _⟩

theorem fractionPart_le (sig places : Nat) (ds : List Nat) (fits : sig ≤ maxSignificand) :
    (fractionPart sig places ds).1 ≤ maxSignificand ∧
      ∃ k ≤ ds.length, (fractionPart sig places ds).2 = places + k ∧
        (fractionPart sig places ds).1 * 10 ^ (ds.length - k) ≤ sig * 10 ^ ds.length + ofDigits ds := by
  induction ds generalizing sig places with
  | nil => exact ⟨fits, 0, le_refl 0, rfl, by simp [fractionPart]⟩
  | cons d rest ih =>
    rw [fractionPart]
    split
    · next more =>
      obtain ⟨within, k, few, count, less⟩ := ih (sig * 10 + d) (places + 1) more
      refine ⟨within, k + 1, by simpa using few, by omega, ?_⟩
      rw [List.length_cons, Nat.add_sub_add_right, ofDigits_cons]
      refine less.trans_eq ?_
      rw [pow_succ]
      ring
    · exact ⟨fits, 0, Nat.zero_le _, rfl, Nat.le_add_right _ _⟩

theorem isSome_toDouble?_plain (t : NumberToken) (plain : t.exponent = none) (short : t.whole.length ≤ 16) :
    t.toDouble?.isSome = true := by
  obtain ⟨fits, dropped⟩ := wholePart_le 0 t.whole (Nat.zero_le _)
  obtain ⟨fits', k, -, count, -⟩ := fractionPart_le _ 0 (t.fraction.getD []) fits
  simp only [toDouble?, plain, Option.isSome_map]
  refine isSome_scaled? fits' ?_
  generalize hs : (fractionPart (wholePart 0 t.whole).1 0 (t.fraction.getD [])).1 = sig at fits'
  rw [count]
  have sig' : (sig : ℚ) ≤ 2 ^ 64 := by exact_mod_cast (by simp only [maxSignificand] at fits'; omega : sig ≤ 2 ^ 64)
  have power : (10 : ℚ) ^ (((wholePart 0 t.whole).2 : Int) - (0 + k : Nat)) ≤ 10 ^ 16 := by
    rw [← zpow_natCast]
    exact zpow_le_zpow_right₀ (by norm_num) (by omega)
  refine (mul_le_mul sig' power (by positivity) (by norm_num)).trans ?_
  rw [Double.brink_eq]
  exact_mod_cast (by decide +kernel : 2 ^ 64 * 10 ^ 16 ≤ (2 ^ 54 - 5) * 2 ^ 970)

theorem isSome_toDouble?_scientific (negative : Bool) {d : Nat} {ds es : List Nat} {e : Int} (digit : d ≤ 9)
    (exponent : ofDigits es = e.natAbs) (bounded : e ≤ maxExponent)
    (below : (ofDigits (d :: ds) : ℚ) * 10 ^ (e - ds.length) ≤ brink) :
    (toDouble? ⟨negative, [d], if ds = [] then none else some ds, some (e < 0, es)⟩).isSome = true := by
  have kept : (if ds = [] then none else some ds).getD [] = ds := by split <;> simp_all
  have whole : wholePart 0 [d] = (d, 0) := by
    rw [wholePart, if_pos (by simp only [maxSignificand]; omega), wholePart]
    simp
  obtain ⟨fits, k, few, count, less⟩ := fractionPart_le d 0 ds (by simp only [maxSignificand]; omega)
  simp only [toDouble?, kept, whole, Option.isSome_map, exponent]
  split
  · next large =>
    have down : e < 0 := by omega
    simp [down]
  · generalize hs : (fractionPart d 0 ds).1 = sig at fits less
    have shown : (if decide (e < 0) = true then (0 : Int) - (fractionPart d 0 ds).2 - e.natAbs
        else (0 : Int) - (fractionPart d 0 ds).2 + e.natAbs) = e - k := by
      rw [count]
      by_cases down : e < 0 <;> simp only [down, decide_true, decide_false, if_true, if_false, Bool.false_eq_true] <;> omega
    have size : (sig : ℚ) * 10 ^ (e - k) ≤ brink := by
      refine le_trans ?_ below
      have less' : (sig : ℚ) * 10 ^ (ds.length - k) ≤ ofDigits (d :: ds) := by
        rw [ofDigits_cons]
        exact_mod_cast less
      rw [show (e - k : Int) = ((ds.length - k : Nat) : Int) + (e - ds.length) by omega, zpow_add₀ (by norm_num), zpow_natCast,
        ← mul_assoc]
      exact mul_le_mul_of_nonneg_right less' (by positivity)
    simp only [Nat.cast_zero, shown]
    by_cases under : clamp (e - k) < 0
    · unfold scaled?
      simp only [if_neg (not_le.mpr under), Option.isSome_some]
    · refine isSome_scaled? fits (le_trans ?_ size)
      refine mul_le_mul_of_nonneg_left (zpow_le_zpow_right₀ (by norm_num) ?_) (by positivity)
      unfold clamp at under ⊢
      omega

theorem isSome_toDouble?_sign (t : NumberToken) (negative : Bool) :
    ({ t with negative } : NumberToken).toDouble?.isSome = t.toDouble?.isSome := by
  simp only [toDouble?, Option.isSome_map]

end NumberToken

/-! ## Decimals -/

theorem zpow_leadingExponent_le {d : Decimal} (nonzero : d.significand ≠ 0) : (10 : ℚ) ^ d.leadingExponent ≤ d.value := by
  have digits : 0 < Decimal.digitCount d.significand := List.length_pos_of_ne_nil (digits_ne_nil _)
  have least : 10 ^ (Decimal.digitCount d.significand - 1) ≤ d.significand := by
    by_cases one : Decimal.digitCount d.significand - 1 = 0
    · rw [one]
      omega
    · refine Nat.le_of_not_lt fun less => ?_
      have : Decimal.digitCount d.significand ≤ Decimal.digitCount d.significand - 1 :=
        (Nat.length_toDigits_le_iff (by decide) (by omega)).mpr less
      omega
  have least' : (10 : ℚ) ^ (Decimal.digitCount d.significand - 1) ≤ d.significand := by exact_mod_cast least
  rw [Decimal.value, Decimal.leadingExponent,
    show d.exponent + (Decimal.digitCount d.significand : Int) - 1 = ((Decimal.digitCount d.significand - 1 : Nat) : Int) + d.exponent by omega,
    zpow_add₀ (by norm_num), zpow_natCast]
  exact mul_le_mul_of_nonneg_right least' (by positivity)

theorem leadingExponent_le {d : Decimal} (plain : Plain d) (below : d.value ≤ brink) : d.leadingExponent ≤ 308 := by
  by_cases zero : d.significand = 0
  · have exponent : d.exponent = 0 := plain.resolve_left (absurd zero)
    have one : Decimal.digitCount 0 = 1 := rfl
    rw [Decimal.leadingExponent, zero, exponent, one]
    omega
  · by_contra large
    have : (10 : ℚ) ^ 309 ≤ brink := by
      refine le_trans ?_ ((zpow_leadingExponent_le zero).trans below)
      rw [← zpow_natCast]
      exact zpow_le_zpow_right₀ (by norm_num) (by push_cast; omega)
    rw [Double.brink_eq] at this
    exact absurd (by exact_mod_cast this : 10 ^ 309 ≤ (2 ^ 54 - 5) * 2 ^ 970) (by decide +kernel)

/-- The characters are a numeral without sign that is read. -/
def IsReadable (cs : List Char) : Prop := ∃ n : Numeral, n.WellFormed ∧ n.body = cs ∧ n.token.toDouble?.isSome = true

theorem isReadable_full (l : Layout) (d : Decimal) (plain : Plain d) (few : d.leadingExponent ≤ 15) :
    IsReadable (l.full d) := by
  obtain ⟨n, wf, body, exponent, short⟩ := exists_numeral_full l d plain
  refine ⟨n, wf, body, NumberToken.isSome_toDouble?_plain _ ?_ ?_⟩
  · simp [Numeral.token, exponent]
  · simp only [Numeral.token, List.length_map]
    omega

theorem isReadable_scientific (d : Decimal) (plain : Plain d) (below : d.value ≤ brink) :
    IsReadable (Layout.scientific d) := by
  obtain ⟨c, cs, digits, wf, body⟩ := exists_numeral_scientific d
  refine ⟨_, wf, body, ?_⟩
  have digit : digitValue c ≤ 9 := by
    have := toNat_of_isDigit (wf.whole c (List.mem_singleton_self c))
    rw [digitValue]
    omega
  have significand : NumberToken.ofDigits (digitValue c :: cs.map digitValue) = d.significand := by
    rw [← List.map_cons, ← digits, ofDigits_digits]
  have bounded := leadingExponent_le plain below
  have count : (Decimal.digitCount d.significand : Int) = cs.length + 1 := by
    rw [Decimal.digitCount, show Nat.toDigits 10 d.significand = c :: cs from digits]
    simp
  have last : d.leadingExponent - (cs.map digitValue).length = d.exponent := by
    rw [List.length_map, Decimal.leadingExponent, count]
    omega
  have size : (NumberToken.ofDigits (digitValue c :: cs.map digitValue) : ℚ) *
      10 ^ (d.leadingExponent - (cs.map digitValue).length) ≤ brink := by
    rw [significand, last]
    exact below
  have read := NumberToken.isSome_toDouble?_scientific false digit (ofDigits_digits _)
    (by simp only [NumberToken.maxExponent]; omega) size
  simpa [Numeral.token] using read

theorem isReadable_write {l : Layout} {lowest highest : Int} (inFull : l.inFull = some (lowest, highest))
    (few : highest ≤ 15) {d : Decimal} (plain : Plain d) (below : d.value ≤ brink) : IsReadable (l.write d) := by
  rw [Layout.write, inFull]
  dsimp only
  split
  · next within => exact isReadable_full l d plain (within.2.trans few)
  · exact isReadable_scientific d plain below

/-! ## Doubles and singles -/

/-- The two largest doubles are on the brink. -/
theorem isReadable_largest (m : Nat) (h : m = 2 ^ 53 - 2 ∨ m = 2 ^ 53 - 1) :
    IsReadable (Layout.jsonDouble.write (Binary.shortest ⟨m, 971, false⟩)) := by
  obtain ⟨n, wf, body⟩ := isNumeral_write Layout.jsonDouble _ (plain_shortest ⟨m, 971, false⟩)
  refine ⟨n, wf, body, ?_⟩
  have read : ((NumberToken.ofBytes? (Text.encode (Layout.jsonDouble.write (Binary.shortest ⟨m, 971, false⟩)))).bind
      NumberToken.toDouble?).isSome = true := by
    obtain rfl | rfl := h <;> decide +kernel
  have wf' : Numeral.WellFormed { n with negative := false } :=
    ⟨wf.whole, wf.whole_ne_nil, wf.leading, wf.fraction, wf.exponent⟩
  rw [← body, show n.body = Numeral.chars { n with negative := false } from rfl, Numeral.ofBytes?_chars wf',
    Option.bind_some] at read
  exact (NumberToken.isSome_toDouble?_sign n.token false).symm.trans read

theorem isReadable_double {b : Binary} (mantissa : b.mantissa < 2 ^ 53) (exponent : b.exponent ≤ 971)
    (wide : b.mantissa ≠ 2 ^ 52 → b.narrowBelow = false) : IsReadable (Layout.jsonDouble.write b.shortest) := by
  by_cases largest : b.exponent = 971 ∧ 2 ^ 53 - 2 ≤ b.mantissa
  · obtain ⟨m, e, narrow⟩ := b
    obtain ⟨rfl, large⟩ := largest
    dsimp only at mantissa large wide
    obtain rfl := wide (by omega)
    exact isReadable_largest m (by omega)
  · refine isReadable_write (l := Layout.jsonDouble) rfl (by decide) (plain_shortest b) ((b.value_shortest_le).trans ?_)
    have size : 4 * (b.mantissa : ℚ) + 2 ≤ (2 ^ 54 - 5) * 2 ∧ b.exponent = 971 ∨ 4 * (b.mantissa : ℚ) + 2 ≤ 2 ^ 55 ∧ b.exponent ≤ 970 := by
      by_cases top : b.exponent = 971
      · have few : b.mantissa + 3 ≤ 2 ^ 53 := by omega
        have few : (b.mantissa : ℚ) + 3 ≤ 2 ^ 53 := by exact_mod_cast few
        exact .inl ⟨by linarith, top⟩
      · have few : (b.mantissa : ℚ) + 1 ≤ 2 ^ 53 := by exact_mod_cast mantissa
        exact .inr ⟨by linarith, by omega⟩
    rw [brink]
    rcases size with ⟨few, top⟩ | ⟨few, lower⟩
    · calc (4 * (b.mantissa : ℚ) + 2) * 2 ^ (b.exponent - 2) ≤ (2 ^ 54 - 5) * 2 * 2 ^ (969 : Int) := by
            rw [top]
            exact mul_le_mul_of_nonneg_right few (by positivity)
        _ = (2 ^ 54 - 5) * 2 ^ (1 + 969 : Int) := by rw [zpow_add₀ (by norm_num), zpow_one, mul_assoc]
    · calc (4 * (b.mantissa : ℚ) + 2) * 2 ^ (b.exponent - 2) ≤ 2 ^ 55 * 2 ^ (968 : Int) :=
            mul_le_mul few (zpow_le_zpow_right₀ (by norm_num) (by omega)) (by positivity) (by positivity)
        _ ≤ (2 ^ 54 - 5) * 2 ^ 2 * 2 ^ (968 : Int) := mul_le_mul_of_nonneg_right (by norm_num) (by positivity)
        _ = (2 ^ 54 - 5) * 2 ^ (2 + 968 : Int) := by
          rw [zpow_add₀ (by norm_num) 2, mul_assoc]
          rfl

theorem isReadable_single {b : Binary} (mantissa : b.mantissa ≤ 2 ^ 24) (exponent : b.exponent ≤ 105) :
    IsReadable (Layout.jsonSingle.write b.shortest) := by
  refine isReadable_write (l := Layout.jsonSingle) rfl (by decide) (plain_shortest b) ((b.value_shortest_le).trans ?_)
  have few : (b.mantissa : ℚ) ≤ 2 ^ 24 := by exact_mod_cast mantissa
  calc (4 * (b.mantissa : ℚ) + 2) * 2 ^ (b.exponent - 2) ≤ 2 ^ 27 * 2 ^ (103 : Int) :=
        mul_le_mul (by linarith) (zpow_le_zpow_right₀ (by norm_num) (by omega)) (by positivity) (by positivity)
    _ ≤ (2 ^ 54 - 5) * 2 ^ (970 : Int) :=
      mul_le_mul (by norm_num) (zpow_le_zpow_right₀ (by norm_num) (by norm_num)) (by positivity) (by norm_num)

open Float.Model (Format UnpackedFloat) in
theorem unpackExponent_ne_of_isFinite {spec : Format} {b : BitVec spec.numBits}
    (finite : (UnpackedFloat.unpack spec b).isFinite = true) : UnpackedFloat.unpackExponent b ≠ -1#_ := by
  intro all
  unfold UnpackedFloat.unpack at finite
  simp only [if_pos all] at finite
  split at finite <;> simp [UnpackedFloat.isFinite] at finite

theorem biased_lt {x : Float} (finite : x.isFinite = true) :
    (((x.toBits &&& 0x7fffffffffffffff) >>> 52) &&& 0x7ff).toNat < 2047 := by
  have low : x.toBits.toNat &&& 0x7fffffffffffffff = x.toBits.toNat % 2 ^ 63 := Nat.and_two_pow_sub_one_eq_mod _ 63
  have few : ∀ n, n &&& 0x7ff = n % 2 ^ 11 := fun n => Nat.and_two_pow_sub_one_eq_mod n 11
  have shown : (((x.toBits &&& 0x7fffffffffffffff) >>> 52) &&& 0x7ff).toNat = x.toBits.toNat / 2 ^ 52 % 2 ^ 11 := by
    simp [low, few, Nat.shiftRight_eq_div_pow]
    omega
  have kept : (@Float.Model.UnpackedFloat.unpackExponent .binary64 x.toBits.toBitVec).toNat =
      x.toBits.toNat / 2 ^ 52 % 2 ^ 11 := by
    simp [Float.Model.UnpackedFloat.unpackExponent, Nat.shiftRight_eq_div_pow]
  have notAll : @Float.Model.UnpackedFloat.unpackExponent .binary64 x.toBits.toBitVec ≠ -1#11 :=
    unpackExponent_ne_of_isFinite finite
  have : (@Float.Model.UnpackedFloat.unpackExponent .binary64 x.toBits.toBitVec).toNat ≠ 2047 := fun all =>
    notAll (BitVec.eq_of_toNat_eq all)
  omega

theorem isReadable_double_bits {size : UInt64} (finite : ((size >>> 52) &&& 0x7ff).toNat < 2047) :
    IsReadable (Layout.jsonDouble.write (Binary.shortest (.ofDoubleBits size))) := by
  have fraction : (size &&& 0xfffffffffffff).toNat < 2 ^ 52 := by
    have : size.toNat &&& 0xfffffffffffff = size.toNat % 2 ^ 52 := Nat.and_two_pow_sub_one_eq_mod _ 52
    simp [this]
    omega
  unfold Binary.ofDoubleBits
  dsimp only
  split
  · exact isReadable_double (by dsimp only; omega) (by dsimp only; omega) fun _ => rfl
  · exact isReadable_double (by dsimp only; omega) (by dsimp only; omega) fun other =>
      decide_eq_false fun h => other (by dsimp only; rw [h.1]; rfl)

theorem isReadable_single_bits (size : UInt32) :
    IsReadable (Layout.jsonSingle.write (Binary.shortest (.ofSingleBits size))) := by
  have fraction : (size &&& 0x7fffff).toNat < 2 ^ 23 := by
    have : size.toNat &&& 0x7fffff = size.toNat % 2 ^ 23 := Nat.and_two_pow_sub_one_eq_mod _ 23
    simp [this]
    omega
  have exponent : ((size >>> 23) &&& 0xff).toNat < 2 ^ 8 := by
    have few : ∀ n, n &&& 0xff = n % 2 ^ 8 := fun n => Nat.and_two_pow_sub_one_eq_mod n 8
    simp [few]
    omega
  unfold Binary.ofSingleBits
  dsimp only
  split <;> exact isReadable_single (by dsimp only; omega) (by dsimp only; omega)

/-! ## Numbers -/

/-- A number of the sizes there are: what is whole has 64 bits. -/
def Number.Fits : Number → Prop
  | .whole n => -0x8000_0000_0000_0000 ≤ n ∧ n < 0x1_0000_0000_0000_0000
  | _ => True

theorem NumberToken.fits_of_toNumber? {t : NumberToken} {m : Number} (h : t.toNumber? = some m) : m.Fits := by
  unfold toNumber? at h
  dsimp only at h
  split at h
  · next whole =>
    simp only [maxSignificand] at whole
    split at h
    · obtain rfl := Option.some.inj h
      simp only [Number.Fits]
      omega
    · split at h <;> obtain rfl := Option.some.inj h <;> simp only [Number.Fits]
      omega
  · obtain ⟨x, -, rfl⟩ := Option.map_eq_some_iff.mp h
    trivial

theorem NumberToken.exists_toNumber? {t : NumberToken} (h : t.toDouble?.isSome = true) : ∃ m, t.toNumber? = some m := by
  obtain ⟨x, read⟩ := Option.isSome_iff_exists.mp h
  unfold toNumber?
  dsimp only
  split
  · split
    · exact ⟨_, rfl⟩
    · split <;> exact ⟨_, rfl⟩
  · exact ⟨_, by rw [read]; rfl⟩

/-- A number is read back as a number, or as null if it has no text. -/
def Number.Returns (n : Number) : Prop := n.spelled = .null ∨ ∃ m : Number, m.Fits ∧ n.spelled = .number m

theorem Number.returns_of_isReadable {n : Number} (negative : Bool) {body : List Char} (readable : IsReadable body)
    (text : n.text = String.ofList (if negative then '-' :: body else body)) : n.Returns := by
  obtain ⟨m, wf, rfl, read⟩ := readable
  have chars : n.text.toList = Numeral.chars { m with negative } := by
    rw [text, String.toList_ofList, Numeral.chars]
    cases negative <;> rfl
  have wf' : Numeral.WellFormed { m with negative } := ⟨wf.whole, wf.whole_ne_nil, wf.leading, wf.fraction, wf.exponent⟩
  have token := Numeral.ofBytes?_chars wf'
  obtain ⟨k, number⟩ := NumberToken.exists_toNumber? ((NumberToken.isSome_toDouble?_sign m.token negative).trans read)
  refine .inr ⟨k, NumberToken.fits_of_toNumber? number, Number.spelled_of_toNumber? _ _ ?_⟩
  rw [chars, token]
  exact number

theorem isReadable_zero : IsReadable ['0', '.', '0'] :=
  ⟨⟨false, ['0'], ['0'], none⟩, wellFormed_of_head 0 ['0'] ['0'] none rfl (.inr rfl) (by simp [Char.isDigit])
    (by simp [Char.isDigit]) (by simp), rfl, NumberToken.isSome_toDouble?_plain _ rfl (by simp [Numeral.token])⟩

theorem Number.spelled_of_text_null {n : Number} (text : n.text = "null") : n.spelled = .null := by
  rw [Number.spelled, text, Text.utf8_eq_encode]
  rfl

/-- **Every number that is written is read**, unless it has no text. -/
theorem Number.returns {n : Number} (fits : n.Fits) : n.Returns := by
  cases n with
  | whole n => exact .inr ⟨.whole n, fits, Number.spelled_whole n fits.1 fits.2⟩
  | double x =>
    by_cases finite : x.isFinite = true
    · have text : (Number.double x).text = Layout.jsonDouble.double x := if_pos finite
      by_cases zero : x.toBits &&& 0x7fffffffffffffff = 0
      · refine returns_of_isReadable (0 != x.toBits) isReadable_zero (text.trans ?_)
        simp only [Layout.double, Layout.signed, zero, if_true]
        rfl
      · refine returns_of_isReadable (x.toBits &&& 0x7fffffffffffffff != x.toBits)
          (isReadable_double_bits (biased_lt finite)) (text.trans ?_)
        simp only [Layout.double, Layout.signed, zero, if_false]
    · exact .inl (spelled_of_text_null (if_neg finite))
  | single x =>
    by_cases finite : x.isFinite = true
    · have text : (Number.single x).text = Layout.jsonSingle.single x := if_pos finite
      by_cases zero : x.toBits &&& 0x7fffffff = 0
      · refine returns_of_isReadable (0 != x.toBits) isReadable_zero (text.trans ?_)
        simp only [Layout.single, Layout.signed, zero, if_true]
        rfl
      · refine returns_of_isReadable (x.toBits &&& 0x7fffffff != x.toBits)
          (isReadable_single_bits (x.toBits &&& 0x7fffffff)) (text.trans ?_)
        simp only [Layout.single, Layout.signed, zero, if_false]
    · exact .inl (spelled_of_text_null (if_neg finite))

end Json

end ModelDepot
