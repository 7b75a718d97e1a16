import ModelDepot.Json.Literal
import ModelDepot.Json.Reader
import ModelDepot.Json.Writer
import ModelDepot.Proofs.Text.Utf8

/-! # Numerals

Every number is written as a numeral, and every numeral is read as a number token. A whole number is
read back; what a fraction is read back as is left to the arithmetic of the reader.
-/

namespace ModelDepot

namespace Json

open Text (encode encode_cons encode_append encode_nil)

/-! ## Digits -/

def digitValue (c : Char) : Nat := c.toNat - 48

theorem toNat_of_isDigit {c : Char} (h : c.isDigit) : 48 ≤ c.toNat ∧ c.toNat ≤ 57 :=
  Char.isDigit_iff_toNat.mp h

theorem encode_of_isDigit {c : Char} (h : c.isDigit) :
    String.utf8EncodeChar c = [UInt8.ofNat c.toNat] :=
  Text.encode_of_lt c (by have := toNat_of_isDigit h; omega)

theorem toNat_byte {c : Char} (h : c.isDigit) : (UInt8.ofNat c.toNat).toNat = c.toNat := by
  have := toNat_of_isDigit h
  exact Nat.mod_eq_of_lt (by omega)

theorem digit?_of_isDigit {c : Char} (h : c.isDigit) : digit? (UInt8.ofNat c.toNat) = some (digitValue c) := by
  have range : (0x30 : UInt8) ≤ UInt8.ofNat c.toNat ∧ UInt8.ofNat c.toNat ≤ 0x39 := by
    rw [UInt8.le_iff_toNat_le, UInt8.le_iff_toNat_le, toNat_byte h]
    exact toNat_of_isDigit h
  rw [digit?, if_pos range, toNat_byte h, digitValue]

/-! The marks of a numeral are one byte each. -/

theorem encode_minus : String.utf8EncodeChar '-' = [0x2d] := by decide
theorem encode_plus : String.utf8EncodeChar '+' = [0x2b] := by decide
theorem encode_point : String.utf8EncodeChar '.' = [0x2e] := by decide
theorem encode_e : String.utf8EncodeChar 'e' = [0x65] := by decide

def NoDigit (rest : List UInt8) : Prop := ∀ b ∈ rest.head?, digit? b = none

theorem takeDigits_noDigit {rest : List UInt8} (h : NoDigit rest) : takeDigits rest = ([], rest) := by
  cases rest with
  | nil => rfl
  | cons b rest => rw [takeDigits, h b rfl]

theorem takeDigits_encode (ds : List Char) (digits : ∀ c ∈ ds, c.isDigit) {rest : List UInt8}
    (h : NoDigit rest) : takeDigits (encode ds ++ rest) = (ds.map digitValue, rest) := by
  induction ds with
  | nil => exact takeDigits_noDigit h
  | cons c ds ih =>
    have hc := digits c (by simp)
    rw [encode_cons, encode_of_isDigit hc, List.singleton_append, List.cons_append, takeDigits,
      digit?_of_isDigit hc, ih fun d hd => digits d (by simp [hd])]
    rfl

theorem isDigit_of_mem_digits (n : Nat) (c : Char) (h : c ∈ Layout.digits n) : c.isDigit :=
  Nat.isDigit_of_mem_toDigits (by decide) (by decide) h

theorem digits_ne_nil (n : Nat) : Layout.digits n ≠ [] := Nat.toDigits_ne_nil

theorem head?_digits (n : Nat) (h : (Layout.digits n).head? = some '0') : n = 0 := by
  induction n using Nat.strongRecOn with
  | ind n ih =>
    by_cases small : n < 10
    · have head : ∀ d < 10, (Nat.toDigits 10 d).head? = some '0' → d = 0 := by decide
      exact head n small h
    · obtain ⟨c, rest, hc⟩ := List.exists_cons_of_ne_nil (digits_ne_nil (n / 10))
      have split : Layout.digits n = Layout.digits (n / 10) ++ [(n % 10).digitChar] :=
        Nat.toDigits_of_base_le (by decide) (by omega)
      rw [split, hc] at h
      have := ih (n / 10) (by omega) (by rw [hc]; exact h)
      omega

theorem ofDigits_digits (n : Nat) : NumberToken.ofDigits ((Layout.digits n).map digitValue) = n := by
  have h := Nat.ofDigitChars_ten_toDigits (n := n)
  rw [Nat.ofDigitChars_eq_foldl] at h
  simp only [Nat.mul_comm] at h
  rw [NumberToken.ofDigits, List.foldl_map]
  exact h

/-! ## Numerals -/

/-- The parts of a written number: its digits before and after the point, and its exponent with the
sign. -/
structure Numeral where
  negative : Bool
  whole : List Char
  fraction : List Char
  exponent : Option (Bool × List Char)

namespace Numeral

def exponentChars : Option (Bool × List Char) → List Char
  | none => []
  | some (down, ds) => 'e' :: (if down then '-' else '+') :: ds

/-- The fraction as it is written; it is left out if it has no digits. -/
def fractionChars : List Char → List Char
  | [] => []
  | ds => '.' :: ds

def body (n : Numeral) : List Char :=
  n.whole ++ (fractionChars n.fraction ++ exponentChars n.exponent)

def chars (n : Numeral) : List Char := (if n.negative then ['-'] else []) ++ n.body

def token (n : Numeral) : NumberToken where
  negative := n.negative
  whole := n.whole.map digitValue
  fraction := if n.fraction = [] then none else some (n.fraction.map digitValue)
  exponent := n.exponent.map fun e => (e.1, e.2.map digitValue)

/-- The parts are digits, none of them is missing, and a leading zero stands alone. -/
structure WellFormed (n : Numeral) : Prop where
  whole : ∀ c ∈ n.whole, c.isDigit
  whole_ne_nil : n.whole ≠ []
  leading : n.whole.head? = some '0' → n.whole.tail = []
  fraction : ∀ c ∈ n.fraction, c.isDigit
  exponent : ∀ e ∈ n.exponent, e.2 ≠ [] ∧ ∀ c ∈ e.2, c.isDigit

variable {n : Numeral}

theorem takeExponent_exponentChars (exponent : Option (Bool × List Char))
    (h : ∀ e ∈ exponent, e.2 ≠ [] ∧ ∀ c ∈ e.2, c.isDigit) :
    NumberToken.takeExponent (encode (exponentChars exponent)) =
      some (exponent.map fun e => (e.1, e.2.map digitValue), []) := by
  cases exponent with
  | none => rfl
  | some e =>
    obtain ⟨down, ds⟩ := e
    obtain ⟨ne, digits⟩ := h _ rfl
    have taken : takeDigits (encode ds) = (ds.map digitValue, []) := by
      have := takeDigits_encode ds digits (show NoDigit [] by simp [NoDigit])
      rwa [List.append_nil] at this
    obtain ⟨c, cs, rfl⟩ := List.exists_cons_of_ne_nil ne
    rw [exponentChars, encode_cons, encode_cons, encode_e]
    cases down
    · rw [if_neg (by decide), encode_plus]
      simp only [List.cons_append, List.nil_append, NumberToken.takeExponent, taken]
      rfl
    · rw [if_pos rfl, encode_minus]
      simp only [List.cons_append, List.nil_append, NumberToken.takeExponent, taken]
      rfl

theorem noDigit_exponentChars (exponent : Option (Bool × List Char)) :
    NoDigit (encode (exponentChars exponent)) := by
  cases exponent with
  | none => simp [exponentChars, NoDigit]
  | some e =>
    simp [exponentChars, encode_e, NoDigit, digit?]

theorem takeFraction_fractionChars (fraction : List Char) (digits : ∀ c ∈ fraction, c.isDigit)
    (exponent : Option (Bool × List Char)) :
    NumberToken.takeFraction (encode (fractionChars fraction ++ exponentChars exponent)) =
      some (if fraction = [] then none else some (fraction.map digitValue),
        encode (exponentChars exponent)) := by
  cases fraction with
  | nil =>
    cases exponent with
    | none => rfl
    | some e =>
      simp [fractionChars, exponentChars, encode_e, NumberToken.takeFraction]
  | cons c cs =>
    have chars : encode (fractionChars (c :: cs) ++ exponentChars exponent) =
        0x2e :: (encode (c :: cs) ++ encode (exponentChars exponent)) := by
      rw [encode_append, fractionChars, encode_cons, encode_point]
      · rfl
      · simp
    rw [chars, NumberToken.takeFraction, takeDigits_encode _ digits (noDigit_exponentChars exponent)]
    rfl

theorem noDigit_fractionChars (fraction : List Char) (exponent : Option (Bool × List Char)) :
    NoDigit (encode (fractionChars fraction ++ exponentChars exponent)) := by
  cases fraction with
  | nil => exact noDigit_exponentChars exponent
  | cons c cs =>
    simp [fractionChars, encode_point, NoDigit, digit?]

theorem digitValue_eq_zero {c : Char} (h : c.isDigit) (zero : digitValue c = 0) : c = '0' := by
  have := toNat_of_isDigit h
  rw [digitValue] at zero
  rw [← Char.ofNat_toNat c, show c.toNat = 48 by omega]

theorem takeMinus_chars (wf : n.WellFormed) :
    NumberToken.takeMinus (encode n.chars) =
      (n.negative, encode n.whole ++ encode (fractionChars n.fraction ++ exponentChars n.exponent)) := by
  obtain ⟨c, cs, hwhole⟩ := List.exists_cons_of_ne_nil wf.whole_ne_nil
  have hc : c.isDigit := wf.whole c (by simp [hwhole])
  rw [chars, body, encode_append, encode_append n.whole]
  cases n.negative
  · have hne : UInt8.ofNat c.toNat ≠ 0x2d := by
      rw [ne_eq, ← UInt8.toNat_inj, toNat_byte hc]
      have := toNat_of_isDigit hc
      simp only [UInt8.reduceToNat]
      omega
    rw [hwhole, encode_cons, encode_of_isDigit hc]
    simp [NumberToken.takeMinus, hne]
  · simp [NumberToken.takeMinus, encode_minus]

theorem ofBytes?_chars (wf : n.WellFormed) : NumberToken.ofBytes? (encode n.chars) = some n.token := by
  obtain ⟨c, cs, hwhole⟩ := List.exists_cons_of_ne_nil wf.whole_ne_nil
  have hc : c.isDigit := wf.whole c (by simp [hwhole])
  have taken := takeDigits_encode n.whole wf.whole (noDigit_fractionChars n.fraction n.exponent)
  have alone : ∀ d ds, n.whole.map digitValue ≠ 0 :: d :: ds := by
    intro d ds h
    rw [hwhole, List.map_cons, List.cons.injEq] at h
    have := wf.leading (by rw [hwhole, digitValue_eq_zero hc h.1]; rfl)
    simp [hwhole] at this
    simp [this] at h
  unfold NumberToken.ofBytes?
  rw [takeMinus_chars wf]
  simp only [taken]
  split
  · next h => simp [hwhole] at h
  · next h => exact absurd (Prod.mk.inj h).1 (alone _ _)
  · next h =>
    obtain ⟨rfl, rfl⟩ := Prod.mk.inj h
    rw [takeFraction_fractionChars _ wf.fraction]
    simp only [takeExponent_exponentChars _ wf.exponent]
    rfl

theorem isNumberByte_of_isDigit {c : Char} (h : c.isDigit) : Reader.isNumberByte (UInt8.ofNat c.toNat) := by
  have := toNat_of_isDigit h
  simp only [Reader.isNumberByte, Bool.or_eq_true, Bool.and_eq_true, decide_eq_true_eq, UInt8.le_iff_toNat_le,
    toNat_byte h]
  exact .inl (.inl (.inl (.inl (.inl this))))

theorem mem_chars (wf : n.WellFormed) (c : Char) (h : c ∈ n.chars) :
    c.isDigit ∨ c ∈ ['-', '+', '.', 'e'] := by
  simp only [chars, body, List.mem_append] at h
  obtain h | h | h | h := h
  · split at h <;> simp_all
  · exact .inl (wf.whole c h)
  · cases hf : n.fraction with
    | nil => simp [hf, fractionChars] at h
    | cons d ds =>
      rw [hf, fractionChars] at h
      · obtain rfl | h := List.mem_cons.mp h
        · exact .inr (by decide)
        · exact .inl (wf.fraction c (hf ▸ h))
      · simp
  · cases he : n.exponent with
    | none => simp [he, exponentChars] at h
    | some e =>
      simp only [he, exponentChars, List.mem_cons] at h
      obtain rfl | rfl | h := h
      · exact .inr (by decide)
      · exact .inr (by split <;> decide)
      · exact .inl ((wf.exponent e he).2 c h)

theorem isNumberByte_of_mem (wf : n.WellFormed) (b : UInt8) (h : b ∈ encode n.chars) :
    Reader.isNumberByte b := by
  obtain ⟨c, hc, hb⟩ := List.mem_flatMap.mp h
  obtain digit | mark := mem_chars wf c hc
  · rw [encode_of_isDigit digit, List.mem_singleton] at hb
    rw [hb]
    exact isNumberByte_of_isDigit digit
  · simp only [List.mem_cons, List.not_mem_nil, or_false] at mark
    obtain rfl | rfl | rfl | rfl := mark
    · rw [encode_minus, List.mem_singleton] at hb
      exact hb ▸ by decide
    · rw [encode_plus, List.mem_singleton] at hb
      exact hb ▸ by decide
    · rw [encode_point, List.mem_singleton] at hb
      exact hb ▸ by decide
    · rw [encode_e, List.mem_singleton] at hb
      exact hb ▸ by decide

theorem encode_chars_ne_nil (wf : n.WellFormed) : encode n.chars ≠ [] := by
  intro h
  have := ofBytes?_chars wf
  rw [h] at this
  simp [NumberToken.ofBytes?, NumberToken.takeMinus, takeDigits] at this

end Numeral

/-! ## Decimals as numerals -/

/-- The decimals that are written as numerals: zero has no exponent. -/
def Plain (d : Decimal) : Prop := d.significand ≠ 0 ∨ d.exponent = 0

/-- The characters are a numeral without sign. -/
def IsNumeral (cs : List Char) : Prop := ∃ n : Numeral, n.WellFormed ∧ n.body = cs

theorem wellFormed_of_head (m : Nat) (whole fraction : List Char) (exponent : Option (Bool × List Char))
    (head : whole.head? = (Layout.digits m).head?) (leading : m ≠ 0 ∨ whole.tail = [])
    (hwhole : ∀ c ∈ whole, c.isDigit) (hfraction : ∀ c ∈ fraction, c.isDigit)
    (hexponent : ∀ e ∈ exponent, e.2 ≠ [] ∧ ∀ c ∈ e.2, c.isDigit) :
    Numeral.WellFormed ⟨false, whole, fraction, exponent⟩ := by
  refine ⟨hwhole, ?_, ?_, hfraction, hexponent⟩
  · rintro rfl
    simpa [digits_ne_nil] using head.symm
  · intro zero
    exact leading.resolve_left (absurd (head?_digits m (head ▸ zero)))

theorem isDigit_zeros (n : Nat) (c : Char) (h : c ∈ List.replicate n '0') : c.isDigit := by
  rw [List.eq_of_mem_replicate h]
  rfl

theorem exists_numeral_full (l : Layout) (d : Decimal) (plain : Plain d) :
    ∃ n : Numeral, n.WellFormed ∧ n.body = l.full d ∧ n.exponent = none ∧
      (n.whole.length : Int) ≤ max 1 (d.leadingExponent + 1) := by
  have digits := isDigit_of_mem_digits d.significand
  obtain ⟨c, cs, hcs⟩ := List.exists_cons_of_ne_nil (digits_ne_nil d.significand)
  have noExponent : ∀ e ∈ (none : Option (Bool × List Char)), e.2 ≠ [] ∧ ∀ c ∈ e.2, c.isDigit := by simp
  have leading : d.leadingExponent = d.exponent + (Layout.digits d.significand).length - 1 := rfl
  unfold Layout.full
  dsimp only
  split
  · -- Zeros follow the digits.
    have wf := wellFormed_of_head d.significand
      (Layout.digits d.significand ++ List.replicate d.exponent.toNat '0')
      (if l.keepsFraction then ['0'] else []) none (by simp [hcs])
      (if zero : d.significand = 0 then .inr (by rw [zero, plain.resolve_left (absurd zero)]; rfl)
        else .inl zero)
      (fun c hc => (List.mem_append.mp hc).elim (digits c) (isDigit_zeros _ c))
      (by split <;> simp [Char.isDigit]) noExponent
    refine ⟨_, wf, ?_, rfl, ?_⟩
    · cases l.keepsFraction <;> simp [Numeral.body, Numeral.fractionChars, Numeral.exponentChars]
    · simp only [List.length_append, List.length_replicate]
      omega
  · split
    · -- The point stands among the digits.
      next negative less =>
      generalize hk : (Layout.digits d.significand).length - (-d.exponent).toNat = k
      have within : 0 < k ∧ k < (Layout.digits d.significand).length := by omega
      have nonzero : d.significand ≠ 0 := fun zero => by
        rw [zero, show Layout.digits 0 = ['0'] by rfl, List.length_singleton] at within
        omega
      have wf := wellFormed_of_head d.significand ((Layout.digits d.significand).take k)
        ((Layout.digits d.significand).drop k) none (by rw [List.head?_take, if_neg (by omega)]) (.inl nonzero)
        (fun c hc => digits c (List.mem_of_mem_take hc))
        (fun c hc => digits c (List.mem_of_mem_drop hc)) noExponent
      refine ⟨_, wf, ?_, rfl, ?_⟩
      · rw [Numeral.body, Numeral.fractionChars]
        · simp [Numeral.exponentChars]
        · simpa using within.2
      · simp only [List.length_take]
        omega
    · -- The point stands before all digits.
      have wf := wellFormed_of_head 0 ['0']
        (List.replicate ((-d.exponent).toNat - (Layout.digits d.significand).length) '0' ++
          Layout.digits d.significand) none rfl (.inr rfl) (by simp [Char.isDigit])
        (fun c hc => (List.mem_append.mp hc).elim (isDigit_zeros _ c) (digits c)) noExponent
      refine ⟨_, wf, ?_, rfl, ?_⟩
      · simp [Numeral.body, Numeral.fractionChars, Numeral.exponentChars, hcs]
      · simp only [List.length_singleton]
        omega

theorem exists_numeral_scientific (d : Decimal) :
    ∃ c cs, Layout.digits d.significand = c :: cs ∧
      let n : Numeral := ⟨false, [c], cs, some (d.leadingExponent < 0, Layout.digits d.leadingExponent.natAbs)⟩
      n.WellFormed ∧ n.body = Layout.scientific d := by
  have digits := isDigit_of_mem_digits d.significand
  have exponent : ∀ e ∈ some (decide (d.leadingExponent < 0), Layout.digits d.leadingExponent.natAbs),
      e.2 ≠ [] ∧ ∀ c ∈ e.2, c.isDigit := by
    rintro e ⟨rfl⟩
    exact ⟨digits_ne_nil _, isDigit_of_mem_digits _⟩
  obtain ⟨c, cs, hcs⟩ := List.exists_cons_of_ne_nil (digits_ne_nil d.significand)
  rw [hcs] at digits
  have wf := wellFormed_of_head d.significand [c] cs _ (by rw [hcs]; rfl) (.inr rfl)
    (fun a ha => digits a (by simp_all)) (fun a ha => digits a (by simp [ha])) exponent
  refine ⟨c, cs, hcs, wf, ?_⟩
  rw [Layout.scientific, hcs, Numeral.body]
  cases cs <;> simp [Numeral.fractionChars, Numeral.exponentChars]

theorem isNumeral_write (l : Layout) (d : Decimal) (plain : Plain d) : IsNumeral (l.write d) := by
  obtain ⟨n, wf, body, -⟩ := exists_numeral_full l d plain
  obtain ⟨c, cs, -, wf', body'⟩ := exists_numeral_scientific d
  unfold Layout.write
  split
  · exact ⟨n, wf, body⟩
  · split
    · exact ⟨n, wf, body⟩
    · exact ⟨_, wf', body'⟩

/-! ## Shortest decimals -/

theorem nearest?_ne_zero (i : Binary.Interval) (n : Nat) (h : i.nearest? = some n) : n ≠ 0 := by
  unfold Binary.Interval.nearest? at h
  grind

theorem plain_stripZeros (fuel : Nat) (d : Decimal) (h : Plain d) : Plain (Decimal.stripZeros fuel d) := by
  induction fuel generalizing d with
  | zero => exact h
  | succ fuel ih =>
    rw [Decimal.stripZeros]
    split
    · next more => exact ih _ (.inl (by simp only; omega))
    · exact h

theorem plain_firstOn (i : Binary.Interval) (leading : Int) (digits more : Nat) :
    Plain (i.firstOn leading digits more) := by
  induction more generalizing digits with
  | zero => exact .inr rfl
  | succ more ih =>
    rw [Binary.Interval.firstOn]
    split
    · next n h => exact .inl (nearest?_ne_zero _ n h)
    · exact ih _

theorem plain_shortest (b : Binary) : Plain b.shortest := plain_stripZeros _ _ (plain_firstOn _ _ _ _)

/-! ## Number texts -/

def Spells (text : String) : Prop := ∃ n : Numeral, n.WellFormed ∧ text.toList = n.chars

theorem spells_of_isNumeral (negative : Bool) (body : List Char) (h : IsNumeral body) :
    Spells (String.ofList (if negative then '-' :: body else body)) := by
  obtain ⟨n, wf, rfl⟩ := h
  refine ⟨{ n with negative }, ⟨wf.whole, wf.whole_ne_nil, wf.leading, wf.fraction, wf.exponent⟩, ?_⟩
  rw [String.toList_ofList, Numeral.chars]
  cases negative <;> rfl

theorem spells_signed (l : Layout) (keeps : l.keepsFraction = true) (negative : Bool) (size : Option Binary) :
    Spells (l.signed negative size) := by
  refine spells_of_isNumeral negative _ ?_
  cases size with
  | none =>
    simp only [keeps, if_true]
    exact ⟨_, wellFormed_of_head 0 ['0'] ['0'] none rfl (.inr rfl) (by simp [Char.isDigit]) (by simp [Char.isDigit])
      (by simp), rfl⟩
  | some b => exact isNumeral_write l _ (plain_shortest b)

def wholeNumeral (n : Int) : Numeral := ⟨n < 0, Layout.digits n.natAbs, [], none⟩

theorem wellFormed_wholeNumeral (n : Int) : (wholeNumeral n).WellFormed where
  whole := isDigit_of_mem_digits _
  whole_ne_nil := digits_ne_nil _
  leading h := by
    rw [wholeNumeral, head?_digits _ h]
    rfl
  fraction := by simp [wholeNumeral]
  exponent := by simp [wholeNumeral]

theorem toList_toString (n : Int) : (toString n).toList = (wholeNumeral n).chars := by
  cases n with
  | ofNat m =>
    rw [wholeNumeral, Numeral.chars, Numeral.body, if_neg (by simp)]
    exact Nat.toList_repr.trans (List.append_nil _).symm
  | negSucc m =>
    rw [wholeNumeral, Numeral.chars, Numeral.body, if_pos (by simp [Int.negSucc_lt_zero])]
    have text : toString (Int.negSucc m) = "-" ++ (m + 1).repr := rfl
    rw [text, String.toList_append, Nat.toList_repr]
    exact congrArg _ (List.append_nil _).symm

theorem spells_text (n : Number) : Spells n.text ∨ n.text = "null" := by
  cases n with
  | whole n => exact .inl ⟨_, wellFormed_wholeNumeral n, toList_toString n⟩
  | double x =>
    simp only [Number.text]
    split
    · exact .inl (spells_signed _ rfl _ _)
    · exact .inr rfl
  | single x =>
    simp only [Number.text]
    split
    · exact .inl (spells_signed _ rfl _ _)
    · exact .inr rfl

/-- What a number is read back as: what its text says, or null if it has none. -/
def Number.spelled (n : Number) : Document :=
  match NumberToken.ofBytes? (Text.utf8 n.text) with
  | some token => token.toNumber?.elim .unreadable .number
  | none => .null

theorem Number.spelled_of_toNumber? (n m : Number)
    (h : (NumberToken.ofBytes? (Text.encode n.text.toList)).bind NumberToken.toNumber? = some m) :
    n.spelled = .number m := by
  obtain ⟨token, read, h⟩ := Option.bind_eq_some_iff.mp h
  simp only [Number.spelled, Text.utf8_eq_encode, read, h, Option.elim_some]

theorem toNumber?_wholeNumeral (n : Int) (low : -0x8000_0000_0000_0000 ≤ n) (high : n < 0x1_0000_0000_0000_0000) :
    (wholeNumeral n).token.toNumber? = some (.whole n) := by
  unfold NumberToken.toNumber?
  simp only [Numeral.token, wholeNumeral, ofDigits_digits, if_true, Option.map_none, true_and,
    NumberToken.maxSignificand]
  rw [if_pos (by omega)]
  by_cases negative : n < 0
  · simp only [negative, decide_true, not_true, if_false]
    rw [if_pos (by omega), show (-(n.natAbs : Int)) = n by omega]
  · simp only [negative, decide_false]
    rw [if_pos (by decide), show (n.natAbs : Int) = n by omega]

theorem Number.spelled_whole (n : Int) (low : -0x8000_0000_0000_0000 ≤ n) (high : n < 0x1_0000_0000_0000_0000) :
    (Number.whole n).spelled = .number (.whole n) := by
  apply Number.spelled_of_toNumber?
  rw [Number.text, toList_toString, Numeral.ofBytes?_chars (wellFormed_wholeNumeral n), Option.bind_some,
    toNumber?_wholeNumeral n low high]

end Json

end ModelDepot
