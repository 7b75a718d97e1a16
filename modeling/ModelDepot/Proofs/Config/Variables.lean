import ModelDepot.Config.Key
import ModelDepot.Config.Variables
import ModelDepot.Proofs.Json.Numerals

/-! # What variables of the environment set

A setting is about the member that its key begins with, and about no other. What a variable is set to is read as a
value before it is used, so that a member which is a text gets the text that the value is written as. The texts that
come back as they were are those that look like no other value, and those that are written as the value would be.
-/

namespace ModelDepot

namespace Config

/-! ## Splitting a text -/

section Splitting

open String (Pos.Raw)

/-- Splits a text in so many turns at most; each turn looks at one sign. -/
def splitWithin (s sep : String) : Nat → Pos.Raw → Pos.Raw → Pos.Raw → List String → Option (List String)
  | 0, _, _, _, _ => none
  | n + 1, b, i, j, r =>
    if i.atEnd s then some (b.extract s i :: r).reverse
    else if i.get s = j.get sep then
      if (j.next sep).atEnd sep then
        splitWithin s sep n (i.next s) (i.next s) 0 (b.extract s ((i.next s).unoffsetBy (j.next sep)) :: r)
      else splitWithin s sep n b (i.next s) (j.next sep) r
    else splitWithin s sep n b ((i.unoffsetBy j).next s) 0 r

theorem splitOnAux_of_within {s sep : String} {n : Nat} {b i j : Pos.Raw} {r parts : List String}
    (within : splitWithin s sep n b i j r = some parts) : s.splitOnAux sep b i j r = parts := by
  induction n generalizing b i j r with
  | zero => cases within
  | succ n ih =>
    rw [String.splitOnAux]
    rw [splitWithin] at within
    simp only [beq_iff_eq]
    split_ifs at within ⊢
    · exact Option.some.inj within
    · exact ih within
    · exact ih within
    · exact ih within

theorem splitOn_of_within {s sep : String} {n : Nat} {parts : List String} (separates : sep ≠ "")
    (within : splitWithin s sep n 0 0 0 [] = some parts) : s.splitOn sep = parts := by
  rw [String.splitOn, if_neg (by simpa using separates)]
  exact splitOnAux_of_within within

end Splitting

/-! ## Members under settings -/

variable {v w new : Value} {k k' key : String} {settings : List (String × Value)}

theorem lookup_cons_eq (m : String × Value) (t : Table) (k : String) :
    List.lookup k (m :: t) = if k = m.1 then some m.2 else t.lookup k := by
  by_cases same : k = m.1
  · rw [List.lookup_cons, if_pos same, beq_iff_eq.mpr same]
  · rw [List.lookup_cons, if_neg same, beq_eq_false_iff_ne.mpr same]

theorem lookup_set (k : String) (v : Value) (t : Table) (k' : String) :
    (Table.set k v t).lookup k' = if k' = k then some v else t.lookup k' := by
  induction t with
  | nil => exact lookup_cons_eq (k, v) [] k'
  | cons m rest ih =>
    by_cases there : m.1 = k
    · rw [Table.set, if_pos there, lookup_cons_eq, lookup_cons_eq, there]
      by_cases same : k' = k
      · rw [if_pos same, if_pos same]
      · rw [if_neg same, if_neg same, if_neg same]
    · simp only [Table.set, if_neg there, lookup_cons_eq, ih]
      by_cases same : k' = m.1
      · rw [if_pos same, if_neg (same ▸ there), if_pos same]
      · rw [if_neg same, if_neg same]

/-- The member that a key begins with. -/
def memberOf (key : String) : String :=
  match stepsOf key with
  | .member name :: _ => name
  | _ => key

theorem stepsOf_eq (key : String) : stepsOf key = .member (memberOf key) :: (stepsOf key).tail := by
  have begins : ∃ name steps, stepsOf key = .member name :: steps := by
    unfold stepsOf
    dsimp only
    split
    · exact ⟨_, _, rfl⟩
    · split <;> exact ⟨_, _, rfl⟩
  obtain ⟨name, steps, same⟩ := begins
  simp only [memberOf, same, List.tail_cons]

/-- What a member is after a value was set at a path inside it. -/
def setWithin (new : Value) : List Step → Option Value → Value
  | [], old => overlay old new
  | step :: steps, old => setAt new (step :: steps) (old.getD .nothing)

theorem members_setAt (new : Value) (k : String) (steps : List Step) (v : Value) :
    (setAt new (.member k :: steps) v).members = Table.set k (setWithin new steps (v.members.lookup k)) v.members := by
  cases steps with
  | nil => simp only [setAt, setWithin, Value.members]
  | cons step steps => simp only [setAt, setWithin, Value.members]

theorem lookup_setAt (new : Value) (key : String) (v : Value) (k : String) :
    (setAt new (stepsOf key) v).members.lookup k =
      if k = memberOf key then some (setWithin new (stepsOf key).tail (v.members.lookup k))
      else v.members.lookup k := by
  rw [stepsOf_eq, members_setAt, lookup_set]
  by_cases same : k = memberOf key
  · simp only [← same, if_true, List.tail_cons]
  · simp only [if_neg same]

theorem lookup_layer_of_apart (apart : ∀ m ∈ settings, memberOf m.1 ≠ k) :
    (layer v settings).members.lookup k = v.members.lookup k := by
  induction settings generalizing v with
  | nil => rfl
  | cons m rest ih =>
    obtain ⟨first, others⟩ := List.forall_mem_cons.mp apart
    exact (ih others).trans ((lookup_setAt m.2 m.1 v k).trans (if_neg first.symm))

theorem lookup_layer_congr (same : v.members.lookup k = w.members.lookup k) :
    (layer v settings).members.lookup k = (layer w settings).members.lookup k := by
  induction settings generalizing v w with
  | nil => exact same
  | cons m rest ih => exact ih (by rw [lookup_setAt, lookup_setAt, same])

theorem layer_append (v : Value) (settings more : List (String × Value)) :
    layer v (settings ++ more) = layer (layer v settings) more := List.foldl_append

theorem layer_cons (v : Value) (key : String) (new : Value) (settings : List (String × Value)) :
    layer v ((key, new) :: settings) = layer (setAt new (stepsOf key) v) settings := rfl

/-! ## Texts of values -/

/-- The text that a member gets which is a text and which a variable sets. -/
def settled (s : String) : String := (valueOf s).asText?.getD s

theorem asText?_valueOf (s : String) : (valueOf s).asText? = some (settled s) := by
  unfold settled valueOf
  split_ifs
  · rfl
  · rfl
  · split
    · rfl
    · split <;> rfl

theorem overlay_of_asText {s : String} (old : Option Value) (text : new.asText? = some s) : overlay old new = new := by
  cases new with
  | table => cases text
  | _ => simp only [overlay]

/-! ## Texts that are kept -/

theorem ofDigits_digits (n : Nat) : PlainNumber.ofDigits (Layout.digits n) = n := by
  have h := Nat.ofDigitChars_ten_toDigits (n := n)
  rw [Nat.ofDigitChars_eq_foldl] at h
  simp only [Nat.mul_comm] at h
  exact h

theorem sign_of_isDigit {cs : List Char} (digits : ∀ c ∈ cs, c.isDigit) : PlainNumber.sign cs = (false, cs) := by
  unfold PlainNumber.sign
  split
  · exact absurd (digits '-' List.mem_cons_self) (by decide)
  · exact absurd (digits '+' List.mem_cons_self) (by decide)
  · rfl

theorem toList_toString_int (n : Int) :
    (toString n).toList = (if n < 0 then ['-'] else []) ++ Layout.digits n.natAbs := by
  rw [Json.toList_toString, Json.Numeral.chars, Json.Numeral.body, Json.wholeNumeral, Json.Numeral.fractionChars,
    Json.Numeral.exponentChars, List.append_nil, List.append_nil]
  simp only [decide_eq_true_eq]

theorem plainInt?_toString (n : Int) (low : -0x8000_0000_0000_0000 ≤ n) (high : n < 0x8000_0000_0000_0000) :
    plainInt? 64 (toString n) = some n := by
  have digits := Json.isDigit_of_mem_digits n.natAbs
  have signed : PlainNumber.sign (toString n).toList = (decide (n < 0), Layout.digits n.natAbs) := by
    rw [toList_toString_int]
    by_cases negative : n < 0
    · rw [if_pos negative, decide_eq_true negative]
      rfl
    · rw [if_neg negative, decide_eq_false negative]
      exact sign_of_isDigit digits
  have allDigits : (Layout.digits n.natAbs).any (! ·.isDigit) = false := by simpa using digits
  have value : (if decide (n < 0) = true then -(n.natAbs : Int) else n.natAbs) = n := by
    simp only [decide_eq_true_eq]
    split_ifs <;> omega
  simp only [plainInt?, signed, allDigits, ofDigits_digits, value, List.isEmpty_eq_false_iff.mpr (Json.digits_ne_nil _),
    Bool.or_false, Bool.false_eq_true, if_false]
  exact if_pos ⟨low, high⟩

theorem mem_toString_int {n : Int} {c : Char} (at' : c ∈ (toString n).toList) : c = '-' ∨ c.isDigit := by
  rw [toList_toString_int, List.mem_append] at at'
  obtain minus | digit := at'
  · split_ifs at minus
    · exact .inl (List.mem_singleton.mp minus)
    · exact absurd minus List.not_mem_nil
  · exact .inr (Json.isDigit_of_mem_digits _ c digit)

theorem lowerChar_of_isDigit {c : Char} (digit : c.isDigit) : lowerChar c = c := by
  have bounds := Json.toNat_of_isDigit digit
  have noKelvin : c ≠ '\u212a' := by
    rintro rfl
    exact absurd digit (by decide)
  rw [lowerChar, if_neg noKelvin]
  refine dif_neg fun upper => ?_
  have letter : 65 ≤ c.toNat := UInt32.le_iff_toNat_le.mp upper.1
  omega

theorem lower_toString_int (n : Int) : lower (toString n) = toString n := by
  rw [lower, List.map_congr_left (g := id) ?_, List.map_id, String.ofList_toList]
  intro c at'
  obtain rfl | digit := mem_toString_int at'
  · rfl
  · exact lowerChar_of_isDigit digit

theorem toString_int_ne {n : Int} {s : String} {c : Char} (other : c ∈ s.toList) (noMinus : c ≠ '-')
    (noDigit : c.isDigit = false) : lower (toString n) ≠ s := by
  rw [lower_toString_int]
  rintro rfl
  obtain minus | digit := mem_toString_int other
  · exact noMinus minus
  · rw [digit] at noDigit
    cases noDigit

/-- A text that is no truth value. -/
def NoFlag (s : String) : Prop := lower s ≠ "true" ∧ lower s ≠ "false"

/-- The texts that come back as they were. -/
inductive Kept : String → Prop where
  | flag (b : Bool) : Kept (if b then "true" else "false")
  | whole (n : Int) (low : -0x8000_0000_0000_0000 ≤ n) (high : n < 0x8000_0000_0000_0000) : Kept (toString n)
  | fraction {s : String} {x : PlainNumber} (noFlag : NoFlag s) (notWhole : plainInt? 64 s = none)
      (number : PlainNumber.ofText? s = some x) (same : plainDouble x.toDouble = s) : Kept s
  | text {s : String} (noFlag : NoFlag s) (notWhole : plainInt? 64 s = none)
      (noNumber : PlainNumber.ofText? s = none) : Kept s

theorem valueOf_whole {s : String} {n : Int} (noFlag : NoFlag s) (whole : plainInt? 64 s = some n) :
    valueOf s = .whole n := by
  simp only [valueOf, if_neg noFlag.1, if_neg noFlag.2, whole]

theorem valueOf_fraction {s : String} {x : PlainNumber} (noFlag : NoFlag s) (notWhole : plainInt? 64 s = none)
    (number : PlainNumber.ofText? s = some x) : valueOf s = .fraction x.toDouble := by
  simp only [valueOf, if_neg noFlag.1, if_neg noFlag.2, notWhole, number]

theorem valueOf_text {s : String} (noFlag : NoFlag s) (notWhole : plainInt? 64 s = none)
    (noNumber : PlainNumber.ofText? s = none) : valueOf s = .text s := by
  simp only [valueOf, if_neg noFlag.1, if_neg noFlag.2, notWhole, noNumber]

theorem bounds_of_plainInt? {s : String} {n : Int} (whole : plainInt? 64 s = some n) :
    -0x8000_0000_0000_0000 ≤ n ∧ n < 0x8000_0000_0000_0000 := by
  simp only [plainInt?, Option.ite_none_left_eq_some, Option.ite_none_right_eq_some, Option.some.injEq] at whole
  obtain ⟨-, bounds, rfl⟩ := whole
  exact bounds

/-- **A text comes back as it was** exactly if it looks like no other value or is written as its value is. -/
theorem settled_eq_self_iff (s : String) : settled s = s ↔ Kept s := by
  constructor
  · intro same
    by_cases yes : lower s = "true"
    · have value : settled s = "true" := by rw [settled, valueOf, if_pos yes]; rfl
      rw [← same, value]
      exact .flag true
    by_cases no : lower s = "false"
    · have value : settled s = "false" := by rw [settled, valueOf, if_neg yes, if_pos no]; rfl
      rw [← same, value]
      exact .flag false
    cases whole : plainInt? 64 s with
    | some n =>
      obtain ⟨low, high⟩ := bounds_of_plainInt? whole
      have value : settled s = toString n := by rw [settled, valueOf_whole ⟨yes, no⟩ whole]; rfl
      rw [← same, value]
      exact .whole n low high
    | none =>
      cases number : PlainNumber.ofText? s with
      | some x =>
        have value : settled s = plainDouble x.toDouble := by rw [settled, valueOf_fraction ⟨yes, no⟩ whole number]; rfl
        exact .fraction ⟨yes, no⟩ whole number (value.symm.trans same)
      | none => exact .text ⟨yes, no⟩ whole number
  · intro kept
    cases kept with
    | flag b => cases b <;> rfl
    | whole n low high =>
      have noFlag : NoFlag (toString n) :=
        ⟨toString_int_ne (c := 't') (by decide) (by decide) (by decide),
          toString_int_ne (c := 'f') (by decide) (by decide) (by decide)⟩
      rw [settled, valueOf_whole noFlag (plainInt?_toString n low high)]
      rfl
    | fraction noFlag notWhole number same =>
      rw [settled, valueOf_fraction noFlag notWhole number]
      exact same
    | text noFlag notWhole noNumber =>
      rw [settled, valueOf_text noFlag notWhole noNumber]
      rfl

end Config

end ModelDepot
