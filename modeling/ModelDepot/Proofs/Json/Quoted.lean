import ModelDepot.Json.Reader
import ModelDepot.Json.Writer
import ModelDepot.Proofs.Text.Utf8

/-! # Quoted texts

What is written between quotes is read back: the reader finds the closing quote, and the bytes before
it stand for the text.
-/

namespace ModelDepot

namespace Json

open Text (encode encode_cons encode_append encode_nil)

/-! ## The bytes between the quotes -/

/-- The bytes of one character inside a quoted text. -/
def escapeBytes (c : Char) : List UInt8 := encode (escape c)

/-- The bytes of the inside of a quoted text. -/
def inside (cs : List Char) : List UInt8 := cs.flatMap escapeBytes

theorem encode_flatMap (f : Char → List Char) (cs : List Char) :
    encode (cs.flatMap f) = cs.flatMap fun c => encode (f c) := List.flatMap_assoc

theorem utf8_quoted (s : String) : Text.utf8 (quoted s) = 0x22 :: (inside s.toList ++ [0x22]) := by
  have quote : String.utf8EncodeChar '"' = [0x22] := by decide
  rw [quoted, Text.utf8_ofList]
  simp only [List.cons_append, encode_cons, encode_append, encode_nil, List.append_nil, quote, inside,
    encode_flatMap, List.nil_append]
  rfl

/-- How a character is written: by its own bytes, by a letter after a backslash, or by its number. -/
inductive Written (c : Char) : List UInt8 → Prop where
  | itself (printable : 0x20 ≤ c.toNat) (quote : c ≠ '"') (backslash : c ≠ '\\') :
      Written c (String.utf8EncodeChar c)
  | letter (b : UInt8) (known : shortEscape? b = some (UInt8.ofNat c.toNat)) (below : c.toNat < 128) :
      Written c [0x5c, b]
  | code (h₁ h₂ h₃ h₄ : UInt8) (spells : hex4? h₁ h₂ h₃ h₄ = some c.toNat) (below : c.toNat < 128) :
      Written c [0x5c, 0x75, h₁, h₂, h₃, h₄]

theorem hex4?_control : ∀ n < 0x20, hex4? 0x30 0x30 (UInt8.ofNat (hexDigit (n / 16)).toNat)
    (UInt8.ofNat (hexDigit n).toNat) = some n := by decide

theorem hexDigit_toNat_lt (n : Nat) : (hexDigit n).toNat < 128 := by
  have h : ∀ d < 16, (Nat.digitChar d).toLower.toNat < 128 := by decide
  exact h _ (Nat.mod_lt _ (by decide))

theorem encode_backslash : String.utf8EncodeChar '\\' = [0x5c] := by decide

theorem written_letter (c d : Char) (hd : d.toNat < 128)
    (known : shortEscape? (UInt8.ofNat d.toNat) = some (UInt8.ofNat c.toNat)) (below : c.toNat < 128) :
    Written c (encode ['\\', d]) := by
  rw [encode_cons, encode_cons, encode_nil, encode_backslash, Text.encode_of_lt d hd]
  exact .letter _ known below

theorem written_code (c : Char) (control : c.toNat < 0x20) :
    Written c (encode ['\\', 'u', '0', '0', hexDigit (c.toNat / 16), hexDigit c.toNat]) := by
  have letter : String.utf8EncodeChar 'u' = [0x75] := by decide
  have zero : String.utf8EncodeChar '0' = [0x30] := by decide
  simp only [encode_cons, encode_nil, encode_backslash, letter, zero,
    Text.encode_of_lt _ (hexDigit_toNat_lt _), List.cons_append, List.nil_append]
  exact .code _ _ _ _ (hex4?_control _ control) (by omega)

theorem written_escape (c : Char) : Written c (escapeBytes c) := by
  unfold escapeBytes escape
  split
  · next h => exact h ▸ written_letter '"' '"' (by decide) (by decide) (by decide)
  split
  · next h => exact h ▸ written_letter '\\' '\\' (by decide) (by decide) (by decide)
  split
  · next h => exact written_letter c 'b' (by decide) (by rw [h]; decide) (by omega)
  split
  · next h => exact written_letter c 't' (by decide) (by rw [h]; decide) (by omega)
  split
  · next h => exact written_letter c 'n' (by decide) (by rw [h]; decide) (by omega)
  split
  · next h => exact written_letter c 'f' (by decide) (by rw [h]; decide) (by omega)
  split
  · next h => exact written_letter c 'r' (by decide) (by rw [h]; decide) (by omega)
  split
  · next h => exact written_code c h
  · next hq hb _ _ _ _ _ h =>
    rw [encode_cons, encode_nil, List.append_nil]
    exact .itself (by omega) hq hb

theorem plain_of_mem_encode (c : Char) (printable : 0x20 ≤ c.toNat) (quote : c ≠ '"') (backslash : c ≠ '\\')
    (b : UInt8) (hb : b ∈ String.utf8EncodeChar c) : ¬ b < 0x20 ∧ b ≠ 0x22 ∧ b ≠ 0x5c := by
  by_cases below : c.toNat < 128
  · have hq : c.toNat ≠ 0x22 := fun h => quote (by rw [← Char.ofNat_toNat c, h])
    have hs : c.toNat ≠ 0x5c := fun h => backslash (by rw [← Char.ofNat_toNat c, h])
    rw [Text.encode_of_lt c below, List.mem_singleton] at hb
    subst hb
    simp only [UInt8.lt_iff_toNat_lt, ne_eq, ← UInt8.toNat_inj, UInt8.toNat_ofNat']
    refine ⟨?_, ?_, ?_⟩ <;> simp <;> omega
  · have := Text.le_of_mem_encode c (Nat.le_of_not_lt below) b hb
    rw [UInt8.le_iff_toNat_le] at this
    simp only [UInt8.lt_iff_toNat_lt, ne_eq, ← UInt8.toNat_inj]
    refine ⟨?_, ?_, ?_⟩ <;> simp at this ⊢ <;> omega

/-! ## What they stand for -/

theorem utf8_char (c : Char) : utf8 c = String.utf8EncodeChar c := by
  have := Text.utf8_ofList [c]
  rwa [encode_cons, encode_nil, List.append_nil] at this

theorem unescape?_plain (plain rest : List UInt8) (h : ∀ b ∈ plain, b ≠ 0x5c) :
    unescape? (plain ++ rest) = (unescape? rest).map (plain ++ ·) := by
  induction plain with
  | nil => simp
  | cons b plain ih =>
    have hb : b ≠ 0x5c := h b (by simp)
    rw [List.cons_append, unescape?.eq_def]
    split <;> simp_all [Function.comp_def]

theorem unescape?_letter (b c : UInt8) (known : shortEscape? b = some c) (rest : List UInt8) :
    unescape? (0x5c :: b :: rest) = (unescape? rest).map (c :: ·) := by
  have hb : b ≠ 0x75 := by
    rintro rfl
    simp [shortEscape?] at known
  rw [unescape?.eq_4 b rest (fun _ _ _ _ _ _ _ _ _ h _ => hb h) (fun _ _ _ _ _ h _ => hb h), known]

/-- The rest goes on with another number after a backslash. -/
def GoesOn (rest : List UInt8) : Prop :=
  ∃ h₁ h₂ h₃ h₄ more, rest = 0x5c :: 0x75 :: h₁ :: h₂ :: h₃ :: h₄ :: more

theorem not_goesOn {rest : List UInt8} (h : ¬ GoesOn rest) (h₁ h₂ h₃ h₄ : UInt8) (more : List UInt8)
    (eq : rest = 0x5c :: 0x75 :: h₁ :: h₂ :: h₃ :: h₄ :: more) : False := h ⟨h₁, h₂, h₃, h₄, more, eq⟩

theorem unescape?_miscoded (h₁ h₂ h₃ h₄ : UInt8) (miscoded : hex4? h₁ h₂ h₃ h₄ = none) (rest : List UInt8) :
    unescape? (0x5c :: 0x75 :: h₁ :: h₂ :: h₃ :: h₄ :: rest) = none := by
  by_cases goesOn : GoesOn rest
  · obtain ⟨g₁, g₂, g₃, g₄, more, rfl⟩ := goesOn
    rw [unescape?.eq_2, miscoded]
  · rw [unescape?.eq_3 _ _ _ _ _ (not_goesOn goesOn), miscoded]

/-- A number after a backslash stands for its character, whatever follows: it is no surrogate, so it is
not taken together with another number. -/
theorem unescape?_code (h₁ h₂ h₃ h₄ : UInt8) (n : Nat) (spells : hex4? h₁ h₂ h₃ h₄ = some n)
    (below : n < 0xd800) (rest : List UInt8) :
    unescape? (0x5c :: 0x75 :: h₁ :: h₂ :: h₃ :: h₄ :: rest) =
      (unescape? rest).map (utf8 (Char.ofNat n) ++ ·) := by
  by_cases goesOn : GoesOn rest
  · obtain ⟨g₁, g₂, g₃, g₄, more, rfl⟩ := goesOn
    rw [unescape?.eq_2, spells]
    cases hm : hex4? g₁ g₂ g₃ g₄ with
    | some m => simp only [show ¬ (0xd800 ≤ n ∧ n < 0xdc00) by omega, show ¬ (0xdc00 ≤ n ∧ n < 0xe000) by omega,
        if_false]
    | none => rw [unescape?_miscoded _ _ _ _ hm, Option.map_none]
  · rw [unescape?.eq_3 _ _ _ _ _ (not_goesOn goesOn), spells]
    simp only [show ¬ (0xd800 ≤ n ∧ n < 0xe000) by omega, if_false]

theorem unescape?_escapeBytes (c : Char) (rest : List UInt8) :
    unescape? (escapeBytes c ++ rest) = (unescape? rest).map (String.utf8EncodeChar c ++ ·) := by
  generalize written : escapeBytes c = bytes
  have written : Written c bytes := written ▸ written_escape c
  cases written with
  | itself printable quote backslash =>
    exact unescape?_plain _ _ fun b hb => (plain_of_mem_encode c printable quote backslash b hb).2.2
  | letter b known below =>
    rw [Text.encode_of_lt c below]
    exact unescape?_letter b _ known rest
  | code h₁ h₂ h₃ h₄ spells below =>
    have := unescape?_code h₁ h₂ h₃ h₄ c.toNat spells (by omega) rest
    rwa [utf8_char, Char.ofNat_toNat] at this

theorem unescape?_inside (cs : List Char) : unescape? (inside cs) = some (encode cs) := by
  induction cs with
  | nil => rw [inside, List.flatMap_nil, unescape?.eq_1, encode_nil]
  | cons c cs ih =>
    rw [inside, List.flatMap_cons, unescape?_escapeBytes, ← inside, ih, encode_cons, Option.map_some]

theorem unquoted (s : String) : (unescape? (inside s.toList)).bind unicode? = some s := by
  rw [unescape?_inside, ← Text.utf8_eq_encode]
  exact Text.ofUtf8?_utf8 s

/-! ## Where they end -/

namespace Reader

variable (frames : List Frame) (expecting : Expecting) (result : Option Document) (isKey : Bool)

theorem run_plain (plain seen rest : List UInt8) (h : ∀ b ∈ plain, ¬ b < 0x20 ∧ b ≠ 0x22 ∧ b ≠ 0x5c) :
    run (some ⟨frames, expecting, .text isKey .none seen, result⟩) (plain ++ rest) =
      run (some ⟨frames, expecting, .text isKey .none (plain.reverse ++ seen), result⟩) rest := by
  induction plain generalizing seen with
  | nil => rfl
  | cons b plain ih =>
    obtain ⟨control, quote, backslash⟩ := h b (by simp)
    have step : State.step ⟨frames, expecting, .text isKey .none seen, result⟩ b =
        some ⟨frames, expecting, .text isKey .none (b :: seen), result⟩ := by
      simp only [State.step, State.inText, quote, backslash, control, if_false]
    rw [List.cons_append, run, step, ih _ fun b' hb' => h b' (by simp [hb'])]
    simp

theorem hexDigits_of_hex4? (a b c d : UInt8) (n : Nat) (h : hex4? a b c d = some n) :
    ∃ x y z w, hexDigit? a = some x ∧ hexDigit? b = some y ∧ hexDigit? c = some z ∧ hexDigit? d = some w := by
  obtain ⟨x, hx, h⟩ := Option.bind_eq_some_iff.mp h
  obtain ⟨y, hy, h⟩ := Option.bind_eq_some_iff.mp h
  obtain ⟨z, hz, h⟩ := Option.bind_eq_some_iff.mp h
  obtain ⟨w, hw, -⟩ := Option.bind_eq_some_iff.mp h
  exact ⟨x, y, z, w, hx, hy, hz, hw⟩

theorem run_escapeBytes (c : Char) (seen rest : List UInt8) :
    run (some ⟨frames, expecting, .text isKey .none seen, result⟩) (escapeBytes c ++ rest) =
      run (some ⟨frames, expecting, .text isKey .none ((escapeBytes c).reverse ++ seen), result⟩) rest := by
  generalize written : escapeBytes c = bytes
  have written : Written c bytes := written ▸ written_escape c
  cases written with
  | itself printable quote backslash =>
    exact run_plain _ _ _ _ _ _ _ (plain_of_mem_encode c printable quote backslash)
  | letter b known below =>
    have hb : b ≠ 0x75 := by
      rintro rfl
      simp [shortEscape?] at known
    simp [run, State.step, State.inText, hb, known]
  | code h₁ h₂ h₃ h₄ spells below =>
    obtain ⟨d₁, d₂, d₃, d₄, e₁, e₂, e₃, e₄⟩ := hexDigits_of_hex4? _ _ _ _ _ spells
    simp [run, State.step, State.inText, e₁, e₂, e₃, e₄]

theorem run_inside (cs : List Char) (seen rest : List UInt8) :
    run (some ⟨frames, expecting, .text isKey .none seen, result⟩) (inside cs ++ rest) =
      run (some ⟨frames, expecting, .text isKey .none ((inside cs).reverse ++ seen), result⟩) rest := by
  induction cs generalizing seen with
  | nil => rfl
  | cons c cs ih =>
    rw [inside, List.flatMap_cons, List.append_assoc, run_escapeBytes, ← inside, ih]
    simp

theorem run_text (s : String) (rest : List UInt8) :
    run (some ⟨frames, expecting, .text isKey .none [], result⟩) (inside s.toList ++ 0x22 :: rest) =
      run (some (State.endText ⟨frames, expecting, .text isKey .none (inside s.toList).reverse, result⟩ isKey
        (inside s.toList).reverse)) rest := by
  rw [run_inside, List.append_nil, run]
  rfl

end Reader

end Json

end ModelDepot
