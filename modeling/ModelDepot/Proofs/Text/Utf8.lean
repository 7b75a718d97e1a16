import Mathlib.Data.List.Induction
import ModelDepot.Text.Utf8

/-! # The bytes of a text

What the encoding of a text is made of, character by character.
-/

namespace ModelDepot

namespace Text

theorem toList_loop (bytes : ByteArray) (i : Nat) (done : List UInt8) (hi : i ≤ bytes.size) :
    ByteArray.toList.loop bytes i done = done.reverse ++ bytes.data.toList.drop i := by
  fun_induction ByteArray.toList.loop bytes i done with
  | case1 i done h ih =>
    rw [ih h]
    have hlen : i < bytes.data.toList.length := by simpa using h
    have hget : bytes.get! i = bytes.data.toList[i] := by
      rw [ByteArray.get!]
      simp [getElem!_pos, h]
    rw [hget, List.reverse_cons, List.append_assoc, List.singleton_append, ← List.drop_eq_getElem_cons]
  | case2 i done h =>
    rw [List.drop_eq_nil_of_le (by simpa using h), List.append_nil]

theorem toList_eq (bytes : ByteArray) : bytes.toList = bytes.data.toList := by
  rw [ByteArray.toList, toList_loop bytes 0 [] (Nat.zero_le _)]
  rfl

/-! ## Encoding -/

theorem utf8_append (s t : String) : utf8 (s ++ t) = utf8 s ++ utf8 t := by
  simp only [utf8, String.toUTF8_eq_toByteArray, toList_eq, String.toByteArray_append, ByteArray.data_append,
    Array.toList_append]

def encode (cs : List Char) : List UInt8 := cs.flatMap String.utf8EncodeChar

@[simp]
theorem encode_nil : encode [] = [] := rfl

@[simp]
theorem encode_cons (c : Char) (cs : List Char) : encode (c :: cs) = String.utf8EncodeChar c ++ encode cs := rfl

@[simp]
theorem encode_append (cs ds : List Char) : encode (cs ++ ds) = encode cs ++ encode ds :=
  List.flatMap_append

theorem utf8_ofList (cs : List Char) : utf8 (String.ofList cs) = encode cs := by
  simp only [utf8, String.toUTF8_eq_toByteArray, toList_eq, String.toByteArray_ofList, List.utf8Encode,
    List.data_toByteArray, encode]

theorem utf8_eq_encode (s : String) : utf8 s = encode s.toList := by
  rw [← utf8_ofList, String.ofList_toList]

theorem encode_of_lt (c : Char) (h : c.toNat < 128) : String.utf8EncodeChar c = [UInt8.ofNat c.toNat] := by
  have hv : c.val.toNat ≤ 0x7f := Nat.le_of_lt_succ h
  simp only [String.utf8EncodeChar, hv, if_true]
  rfl

theorem le_of_mem_encode (c : Char) (h : 128 ≤ c.toNat) (b : UInt8) (hb : b ∈ String.utf8EncodeChar c) :
    0x80 ≤ b := by
  have hv : ¬ c.val.toNat ≤ 0x7f := Nat.not_le_of_lt h
  simp only [String.utf8EncodeChar, hv, if_false] at hb
  rw [UInt8.le_iff_toNat_le]
  split at hb
  · simp only [List.mem_cons, List.not_mem_nil, or_false] at hb
    rcases hb with rfl | rfl <;> simp <;> omega
  · split at hb <;> simp only [List.mem_cons, List.not_mem_nil, or_false] at hb
    · rcases hb with rfl | rfl | rfl <;> simp <;> omega
    · rcases hb with rfl | rfl | rfl | rfl <;> simp <;> omega

theorem ofUtf8?_utf8 (s : String) : ofUtf8? (utf8 s) = some s := by
  have bytes : (⟨(utf8 s).toArray⟩ : ByteArray) = s.toByteArray := by
    rw [utf8, String.toUTF8_eq_toByteArray, toList_eq]
  rw [ofUtf8?, bytes, String.fromUTF8?, dif_pos s.isValidUTF8]
  rfl

theorem utf8_inj {s t : String} (h : utf8 s = utf8 t) : s = t := by
  have read := ofUtf8?_utf8 s
  rw [h, ofUtf8?_utf8 t] at read
  exact (Option.some.inj read).symm

theorem mem_of_mem_encode (cs : List Char) (c : Char) (low : c.toNat < 128)
    (h : UInt8.ofNat c.toNat ∈ encode cs) : c ∈ cs := by
  have byte : (UInt8.ofNat c.toNat).toNat = c.toNat := by
    rw [UInt8.toNat_ofNat']
    omega
  obtain ⟨d, hd, hb⟩ := List.mem_flatMap.mp h
  by_cases plain : d.toNat < 128
  · rw [encode_of_lt d plain, List.mem_singleton] at hb
    have number : d.toNat = c.toNat := by
      have := congrArg UInt8.toNat hb
      rw [byte, UInt8.toNat_ofNat'] at this
      omega
    rwa [← Char.ofNat_toNat c, ← number, Char.ofNat_toNat]
  · have high := le_of_mem_encode d (by omega) _ hb
    rw [UInt8.le_iff_toNat_le, byte] at high
    exact absurd (Nat.lt_of_lt_of_le low high) (Nat.lt_irrefl _)

/-! ## Bytes that are text -/

theorem utf8_of_ofUtf8? {bytes : List UInt8} {s : String} (h : ofUtf8? bytes = some s) : utf8 s = bytes := by
  unfold ofUtf8? String.fromUTF8? at h
  split at h
  · rw [← Option.some.inj h, utf8, String.toUTF8_eq_toByteArray, toList_eq]
    simp [String.fromUTF8]
  · simp at h

theorem exists_of_encode_append {cs ds : List Char} {xs : List UInt8} (h : encode cs = xs ++ encode ds)
    (low : ∀ c ∈ ds, c.toNat < 128) : ∃ front, cs = front ++ ds ∧ encode front = xs := by
  induction ds using List.reverseRecOn generalizing cs with
  | nil => exact ⟨cs, by simp, by simpa using h⟩
  | append_singleton ds c ih =>
    have plain := low c (by simp)
    have single : encode [c] = [UInt8.ofNat c.toNat] := by
      rw [encode_cons, encode_nil, encode_of_lt c plain, List.append_nil]
    rw [encode_append, single, ← List.append_assoc] at h
    obtain rfl | ⟨es, e, rfl⟩ := List.eq_nil_or_concat cs
    · simp at h
    rw [List.concat_eq_append, encode_append] at h
    -- The last byte is one of the last character, which is therefore `c`.
    have last : UInt8.ofNat c.toNat ∈ encode [e] := by
      have ends := congrArg List.getLast? h
      rw [List.getLast?_concat, List.getLast?_append] at ends
      cases bytes : (encode [e]).getLast? with
      | none => simp [encode] at bytes
      | some b =>
        rw [bytes] at ends
        exact (Option.some.inj ends : b = _) ▸ List.mem_of_getLast? bytes
    obtain rfl := List.mem_singleton.mp (mem_of_mem_encode [e] c plain last)
    rw [single] at h
    obtain ⟨front, rfl, before⟩ := ih (List.append_inj' h rfl).1 fun d mem => low d (by simp [mem])
    exact ⟨front, by simp, before⟩

end Text

end ModelDepot
