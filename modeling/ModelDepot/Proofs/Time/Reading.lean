import ModelDepot.Proofs.Json.Numerals
import ModelDepot.Proofs.Time.Calendar

/-! # Points in time are read back

The text of a point in time is read as that point in time, from the first year of the calendar to the last,
with leap seconds and with any fraction of a second.
-/

namespace ModelDepot

namespace Timestamp

open Json (toNat_of_isDigit)

/-! ## Digits -/

/-- No digit comes first. -/
def NoDigit (rest : List Char) : Prop := ∀ c ∈ rest.head?, c.isDigit = false

theorem takeDigits_append {ds rest : List Char} (digits : ∀ c ∈ ds, c.isDigit) {most : Nat}
    (ends : ds.length = most ∨ ds.length ≤ most ∧ NoDigit rest) : takeDigits most (ds ++ rest) = (ds, rest) := by
  induction ds generalizing most with
  | nil =>
    cases most with
    | zero => rfl
    | succ most =>
      obtain full | ⟨-, noDigit⟩ := ends
      · simp at full
      cases rest with
      | nil => rfl
      | cons c rest => simp [takeDigits, noDigit c rfl]
  | cons d ds ih =>
    obtain ⟨most, rfl⟩ : ∃ k, most = k + 1 := ⟨most - 1, by simp only [List.length_cons] at ends; omega⟩
    have rest' : takeDigits most (ds ++ rest) = (ds, rest) :=
      ih (fun c hc => digits c (List.mem_cons_of_mem d hc)) (by simpa using ends)
    rw [List.cons_append, takeDigits, if_pos (digits d (by simp)), rest']

theorem isBlank_of_isDigit {c : Char} (digit : c.isDigit) : Text.isBlank c = false := by
  obtain ⟨low, high⟩ := toNat_of_isDigit digit
  simp [Text.isBlank, Text.blankRanges]
  omega

theorem skipBlanks_cons {c : Char} (notBlank : Text.isBlank c = false) (rest : List Char) :
    Text.skipBlanks (c :: rest) = c :: rest := by
  simp [Text.skipBlanks, notBlank]

theorem skipBlanks_nil : Text.skipBlanks [] = [] := rfl

theorem skipBlanks_digits {ds : List Char} (digits : ∀ c ∈ ds, c.isDigit) (some' : ds ≠ []) (rest : List Char) :
    Text.skipBlanks (ds ++ rest) = ds ++ rest := by
  obtain ⟨c, cs, rfl⟩ := List.exists_cons_of_ne_nil some'
  exact skipBlanks_cons (isBlank_of_isDigit (digits c (by simp))) _

theorem mark?_cons {c : Char} (notBlank : Text.isBlank c = false) (rest : List Char) :
    mark? c (c :: rest) = some rest := by
  simp [mark?, skipBlanks_cons notBlank]

/-! ## Padded numbers -/

section
variable (width n : Nat)

theorem toList_padded :
    (padded width n).toList = List.replicate (width - (Nat.toDigits 10 n).length) '0' ++ Nat.toDigits 10 n := by
  simp [padded]

theorem isDigit_padded : ∀ c ∈ (padded width n).toList, c.isDigit := by
  intro c hc
  rw [toList_padded] at hc
  obtain zero | digit := List.mem_append.mp hc
  · rw [(List.mem_replicate.mp zero).2]
    decide
  · exact Nat.isDigit_of_mem_toDigits (by decide) (by decide) digit

theorem padded_ne_nil : (padded width n).toList ≠ [] := by
  simp [toList_padded, Nat.toDigits_ne_nil]

theorem ofDigits_eq (ds : List Char) : ofDigits ds = Nat.ofDigitChars 10 ds 0 := by
  rw [Nat.ofDigitChars_eq_foldl]
  simp only [Nat.mul_comm]
  rfl

theorem ofDigits_padded : ofDigits (padded width n).toList = n := by
  rw [ofDigits_eq, toList_padded, Nat.ofDigitChars_append, Nat.ofDigitChars_replicate_zero, Nat.mul_zero,
    Nat.ofDigitChars_ten_toDigits]

variable {width n}

theorem length_padded (pos : 0 < width) (fits : n < Nat.pow 10 width) : (padded width n).toList.length = width := by
  have short : (Nat.toDigits 10 n).length ≤ width := (Nat.length_toDigits_le_iff (by decide) pos).mpr fits
  rw [toList_padded, List.length_append, List.length_replicate]
  omega

theorem number?_padded (pos : 0 < width) (fits : n < Nat.pow 10 width) (rest : List Char) :
    number? width ((padded width n).toList ++ rest) = some (n, rest) := by
  have taken : takeDigits width ((padded width n).toList ++ rest) = ((padded width n).toList, rest) :=
    takeDigits_append (isDigit_padded width n) (.inl (length_padded pos fits))
  rw [number?, skipBlanks_digits (isDigit_padded width n) (padded_ne_nil width n), taken]
  obtain ⟨c, cs, same⟩ := List.exists_cons_of_ne_nil (padded_ne_nil width n)
  have value := ofDigits_padded width n
  rw [same] at value ⊢
  simp [value]

end

/-! ## Parts of a text -/

theorem year?_padded {n : Nat} (short : n < Nat.pow 10 4) (rest : List Char) :
    year? ((padded 4 n).toList ++ rest) = some ((n : Int), rest) := by
  have digits := isDigit_padded 4 n
  have read := number?_padded (by decide) short rest
  obtain ⟨c, cs, same⟩ := List.exists_cons_of_ne_nil (padded_ne_nil 4 n)
  have first := digits c (by simp [same])
  have minus : c ≠ '-' := by rintro rfl; exact absurd first (by decide)
  have plus : c ≠ '+' := by rintro rfl; exact absurd first (by decide)
  unfold year?
  rw [skipBlanks_digits digits (padded_ne_nil 4 n)]
  rw [same, List.cons_append] at read ⊢
  split
  · next h => exact absurd (List.cons.inj h).1 minus
  · next h => exact absurd (List.cons.inj h).1 plus
  · rw [read]
    rfl

theorem year?_signed (n : Nat) {rest : List Char} (ends : NoDigit rest) :
    year? ('-' :: ((padded 4 n).toList ++ rest)) = some (-1 * (n : Int), rest) ∧
      year? ('+' :: ((padded 4 n).toList ++ rest)) = some (1 * (n : Int), rest) := by
  have fits : (padded 4 n).toList.length ≤ ((padded 4 n).toList ++ rest).length := by simp
  have taken := takeDigits_append (isDigit_padded 4 n) (.inr ⟨fits, ends⟩)
  have value := ofDigits_padded 4 n
  obtain ⟨c, cs, same⟩ := List.exists_cons_of_ne_nil (padded_ne_nil 4 n)
  rw [same] at taken value
  simp only [same, year?, skipBlanks_cons (c := '-') (by decide), skipBlanks_cons (c := '+') (by decide), taken, value,
    and_self]

theorem year?_yearText (y : Int) {rest : List Char} (ends : NoDigit rest) :
    year? ((yearText y).toList ++ rest) = some (y, rest) := by
  obtain ⟨minus, plus⟩ := year?_signed y.natAbs ends
  unfold yearText
  by_cases plain : 0 ≤ y ∧ y ≤ 9999
  · have short : y.toNat < Nat.pow 10 4 := by
      rw [show Nat.pow 10 4 = 10000 by decide]
      omega
    rw [if_pos plain, year?_padded short, Int.toNat_of_nonneg plain.1]
  rw [if_neg plain]
  by_cases below : y < 0
  · rw [if_pos below, String.toList_append, show "-".toList = ['-'] from rfl, List.append_assoc, List.singleton_append,
      minus, show -1 * (y.natAbs : Int) = y by omega]
  · rw [if_neg below, String.toList_append, show "+".toList = ['+'] from rfl, List.append_assoc, List.singleton_append,
      plus, show 1 * (y.natAbs : Int) = y by omega]

theorem fraction?_fractionText (nanos : Nat) (h : nanos < 1000000000) :
    fraction? ((fractionText nanos).toList ++ ['Z']) = some (nanos, ['Z']) := by
  have read : ∀ width n, 0 < width → width ≤ 9 → n < Nat.pow 10 width →
      fraction? (("." ++ padded width n).toList ++ ['Z']) = some (n * Nat.pow 10 (9 - width), ['Z']) := by
    intro width n pos few fits
    have length := length_padded pos fits
    have taken : takeDigits 9 ((padded width n).toList ++ ['Z']) = ((padded width n).toList, ['Z']) :=
      takeDigits_append (isDigit_padded width n) (.inr ⟨by omega, by simp [NoDigit]⟩)
    have value := ofDigits_padded width n
    obtain ⟨c, cs, same⟩ := List.exists_cons_of_ne_nil (padded_ne_nil width n)
    rw [String.toList_append, show ".".toList = ['.'] from rfl, List.append_assoc, List.singleton_append, fraction?, taken]
    rw [same] at value length ⊢
    simp only [value, length]
    rfl
  unfold fractionText
  split
  · next none' =>
    rw [none']
    rfl
  split
  · next whole =>
    rw [read 3 _ (by decide) (by decide) (by rw [show Nat.pow 10 3 = 1000 by decide]; omega),
      show Nat.pow 10 (9 - 3) = 1000000 by decide]
    simp
    omega
  split
  · next whole =>
    rw [read 6 _ (by decide) (by decide) (by rw [show Nat.pow 10 6 = 1000000 by decide]; omega),
      show Nat.pow 10 (9 - 6) = 1000 by decide]
    simp
    omega
  · rw [read 9 _ (by decide) (by decide) (by rw [show Nat.pow 10 9 = 1000000000 by decide]; omega)]
    simp

/-! ## Whole texts -/

/-- A point in time that has a date. A leap second is the last of a minute. -/
structure OnCalendar (t : Timestamp) : Prop where
  year : isYear (dateOfDays (t.seconds / 86400)).1 = true
  nanos : t.nanos < 1000000000 ∨ t.nanos < 2000000000 ∧ t.seconds % 60 = 59

theorem toList_text (t : Timestamp) :
    let date := dateOfDays (t.seconds / 86400)
    let s := (t.seconds % 86400).toNat
    let leap := 1000000000 ≤ t.nanos
    t.text.toList = (yearText date.1).toList ++ '-' :: ((padded 2 date.2.1).toList ++ '-' ::
      ((padded 2 date.2.2).toList ++ 'T' :: ((padded 2 (s / 3600)).toList ++ ':' ::
        ((padded 2 (s / 60 % 60)).toList ++ ':' :: ((padded 2 (s % 60 + if leap then 1 else 0)).toList ++
          ((fractionText (if leap then t.nanos - 1000000000 else t.nanos)).toList ++ ['Z'])))))) := by
  simp [text]

theorem bounds_of_isDate {y : Int} {m d : Nat} (date : isDate y m d = true) : m < 100 ∧ d < 100 := by
  simp only [isDate, Bool.and_eq_true, decide_eq_true_eq] at date
  obtain ⟨⟨⟨⟨-, -⟩, month⟩, -⟩, day⟩ := date
  unfold daysInMonth at day
  split at day
  · split at day <;> omega
  · split at day <;> omega

theorem ofText?_of_parts (text : String) {y : Int} {m d hour minute second nanos : Nat}
    {r₁ r₂ r₃ r₄ r₅ r₆ : List Char} (hy : year? text.toList = some (y, '-' :: r₁))
    (hm : number? 2 r₁ = some (m, '-' :: r₂)) (hd : number? 2 r₂ = some (d, 'T' :: r₃))
    (hh : number? 2 r₃ = some (hour, ':' :: r₄)) (hmin : number? 2 r₄ = some (minute, ':' :: r₅))
    (hs : number? 2 r₅ = some (second, r₆)) (hn : fraction? r₆ = some (nanos, ['Z'])) :
    ofText? text =
      if isDate y m d && hour < 24 && minute < 60 && second ≤ 60 then
        let clock : Int := hour * 3600 + minute * 60 + (if second = 60 then 59 else second)
        let seconds := daysOfDate y m d * 86400 + clock
        if isYear (dateOfDays (seconds / 86400)).1 then
          some ⟨seconds, if second = 60 then nanos + 1000000000 else nanos⟩
        else none
      else none := by
  have dash : ∀ rest, mark? '-' ('-' :: rest) = some rest := fun rest => mark?_cons (by decide) rest
  have colon : ∀ rest, mark? ':' (':' :: rest) = some rest := fun rest => mark?_cons (by decide) rest
  have zone : zone? (Text.skipBlanks ['Z']) = some (0, []) := by rw [skipBlanks_cons (by decide)]; rfl
  unfold ofText?
  rw [hy, Option.bind_eq_bind, Option.bind_some]
  dsimp only [Option.bind_eq_bind]
  rw [dash, Option.bind_some, hm, Option.bind_some]
  dsimp only
  rw [dash, Option.bind_some, hd, Option.bind_some]
  dsimp only
  rw [if_pos (.inl rfl), Option.bind_some, hh, Option.bind_some]
  dsimp only
  rw [colon, Option.bind_some, hmin, Option.bind_some]
  dsimp only
  rw [colon, Option.bind_some, hs, Option.bind_some]
  dsimp only
  rw [hn, Option.bind_some]
  dsimp only
  rw [zone, Option.bind_some]
  simp [skipBlanks_nil]

/-- **A point in time is read back** from its text. -/
theorem ofText?_text {t : Timestamp} (h : t.OnCalendar) : ofText? t.text = some t := by
  have date := isDate_dateOfDays h.year
  have days := daysOfDate_dateOfDays (t.seconds / 86400)
  obtain ⟨month, day⟩ := bounds_of_isDate date
  have nanos := h.nanos
  have hundred : Nat.pow 10 2 = 100 := by decide
  have read : ∀ n rest, n < 100 → number? 2 ((padded 2 n).toList ++ rest) = some (n, rest) :=
    fun n rest small => number?_padded (by decide) (by omega) rest
  have fraction := fraction?_fractionText (if 1000000000 ≤ t.nanos then t.nanos - 1000000000 else t.nanos)
    (by split <;> omega)
  have parts := ofText?_of_parts t.text (by rw [toList_text, year?_yearText _ (by simp [NoDigit])])
    (read _ _ month) (read _ _ day) (read _ _ (by omega)) (read _ _ (by omega)) (read _ _ (by split <;> omega)) fraction
  rw [parts, date, days]
  clear parts read fraction date days
  have within : 0 ≤ t.seconds % 86400 ∧ t.seconds % 86400 < 86400 := by omega
  generalize hs : (t.seconds % 86400).toNat = s
  have size : s < 86400 := by omega
  -- A leap second is shown as one second more, and taken back when it is read.
  have second : (if s % 60 + (if 1000000000 ≤ t.nanos then 1 else 0) = 60 then 59
      else s % 60 + if 1000000000 ≤ t.nanos then 1 else 0) = s % 60 := by
    by_cases leap : 1000000000 ≤ t.nanos <;> simp only [leap, if_true, if_false] <;> split <;> omega
  have fraction : (if s % 60 + (if 1000000000 ≤ t.nanos then 1 else 0) = 60
      then (if 1000000000 ≤ t.nanos then t.nanos - 1000000000 else t.nanos) + 1000000000
      else if 1000000000 ≤ t.nanos then t.nanos - 1000000000 else t.nanos) = t.nanos := by
    by_cases leap : 1000000000 ≤ t.nanos <;> simp only [leap, if_true, if_false] <;> split <;> omega
  have fits : (true && decide (s / 3600 < 24) && decide (s / 60 % 60 < 60) &&
      decide (s % 60 + (if 1000000000 ≤ t.nanos then 1 else 0) ≤ 60)) = true := by
    simp only [Bool.true_and, Bool.and_eq_true, decide_eq_true_eq]
    refine ⟨⟨by omega, by omega⟩, by split <;> omega⟩
  rw [if_pos fits]
  simp only [second, fraction]
  have seconds : t.seconds / 86400 * 86400 + (((s / 3600 : Nat) : Int) * 3600 + ((s / 60 % 60 : Nat) : Int) * 60 +
      ((s % 60 : Nat) : Int)) = t.seconds := by omega
  rw [seconds, if_pos h.year]

end Timestamp

end ModelDepot
