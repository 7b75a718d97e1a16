import Mathlib.Data.List.Nodup
import Mathlib.Data.List.Perm.Subperm
import ModelDepot.Boosting.Materializer
import ModelDepot.Proofs.Files.Places
import ModelDepot.Proofs.Text.Utf8

/-! # The staging directory

Temporary entries have names of their own, so that one of the first numbers is always free. Where a file could be
staged and its path could be given to the store, an entry with another temporary name can be too.
-/

namespace ModelDepot

open Files (FileSystem Location Name Node Path Segment slash)
open Artifact (Store)

/-! ## Texts -/

/-- A character that neither separates nor needs more than a byte. -/
structure TameChar (c : Char) : Prop where
  noSlash : c ≠ '/'
  noColon : c ≠ ':'
  low : c.toNat < 128

instance (c : Char) : Decidable (TameChar c) :=
  decidable_of_iff (c ≠ '/' ∧ c ≠ ':' ∧ c.toNat < 128) ⟨fun ⟨h₁, h₂, h₃⟩ => ⟨h₁, h₂, h₃⟩, fun h => ⟨h.1, h.2, h.3⟩⟩

theorem TameChar.of_isDigit {c : Char} (digit : c.isDigit = true) : TameChar c := by
  have bounds : 48 ≤ c.toNat ∧ c.toNat ≤ 57 := by
    simpa [Char.isDigit, UInt32.le_iff_toNat_le] using digit
  refine ⟨?_, ?_, by omega⟩
  · rintro rfl
    simp at bounds
  · rintro rfl
    simp at bounds

/-- Characters that neither separate nor need more than a byte. -/
def Tame (cs : List Char) : Prop := ∀ c ∈ cs, TameChar c

instance (cs : List Char) : Decidable (Tame cs) :=
  decidable_of_iff (cs.all fun c => decide (TameChar c)) (by simp [Tame])

theorem Tame.noColon {cs : List Char} (tame : Tame cs) : ':' ∉ cs := fun mem => (tame ':' mem).noColon rfl

namespace Files.Path

variable {p : Path} {cs : List Char} {text : String}

theorem head?_of_text? (absolute : p.isAbsolute = true) (h : p.text? = some text) : text.toList.head? = some '/' := by
  have bytes := Text.utf8_of_ofUtf8? h
  rw [Text.utf8_eq_encode] at bytes
  rw [isAbsolute, ← bytes, beq_iff_eq] at absolute
  cases spelled : text.toList with
  | nil => simp [spelled] at absolute
  | cons c rest =>
    have mem : UInt8.ofNat '/'.toNat ∈ Text.encode [c] := by
      rw [spelled, Text.encode_cons, List.head?_append] at absolute
      rw [Text.encode_cons, Text.encode_nil, List.append_nil]
      cases first : (String.utf8EncodeChar c).head? with
      | none => simp at first
      | some b =>
        rw [first] at absolute
        have found : b = UInt8.ofNat '/'.toNat := Option.some.inj absolute
        exact found ▸ List.mem_of_head? first
    rw [List.head?_cons, List.mem_singleton.mp (Text.mem_of_mem_encode [c] '/' (by decide) mem)]

theorem bytes_child_child (p : Path) {m n : Name} (hm : Segment m) (hn : Segment n) :
    ((p.child m).child n).bytes = (p.child m).bytes ++ slash :: n := by
  obtain ⟨between, bytes⟩ := p.exists_bytes_child
  have noSlash : (p.child m).bytes.getLast? ≠ some slash := by
    rw [bytes m hm, List.getLast?_append_of_ne_nil _ hm.ne_nil]
    exact fun last => hm.noSlash (List.mem_of_getLast? last)
  rw [child_eq _ hn, if_neg (p.bytes_child_ne_nil hm), if_neg noSlash]

theorem text?_child (tame : Tame cs) (segment : Segment (Text.encode cs))
    (h : (p.child (Text.encode cs)).text? = some text) :
    ∃ front, text.toList = front ++ cs ∧
      ∀ cs', Segment (Text.encode cs') → (p.child (Text.encode cs')).bytes = Text.encode (front ++ cs') := by
  obtain ⟨between, bytes⟩ := p.exists_bytes_child
  have whole := Text.utf8_of_ofUtf8? h
  rw [Text.utf8_eq_encode, bytes _ segment] at whole
  obtain ⟨front, spelled, before⟩ := Text.exists_of_encode_append whole fun c mem => (tame c mem).low
  exact ⟨front, spelled, fun cs' segment' => by rw [bytes _ segment', Text.encode_append, before]⟩

end Files.Path

namespace Artifact.Store

theorem hasScheme_of_noColon {cs : List Char} (noColon : ':' ∉ cs) : hasScheme cs = false := by
  fun_induction hasScheme cs with
  | case1 rest => simp at noColon
  | case2 c rest _ ih => exact ih fun mem => noColon (List.mem_cons_of_mem c mem)
  | case3 => rfl

theorem hasScheme_append (cs : List Char) {ds : List Char} (first : ds.head? ≠ some '/') (noColon : ':' ∉ ds) :
    hasScheme (cs ++ ds) = hasScheme cs := by
  fun_induction hasScheme cs with
  | case1 rest => rfl
  | case2 c rest other ih =>
    rw [List.cons_append, hasScheme, ih]
    rintro rest' rfl same
    match rest with
    | [] =>
      obtain rfl : ds = '/' :: '/' :: rest' := same
      simp at first
    | [d] =>
      obtain rfl : ds = '/' :: rest' := (List.cons.inj same).2
      simp at first
    | d :: e :: more =>
      simp only [List.cons_append, List.cons.injEq] at same
      exact other more rfl (by rw [same.1, same.2.1])
  | case3 => exact hasScheme_of_noColon noColon

theorem resolve_of_absolute (s : Store) {text : String} (absolute : text.toList.head? = some '/') :
    s.resolve text =
      if hasScheme text.toList then .error (.invalidLocation ("unsupported scheme for local store: " ++ text))
      else .ok (.ofText text) := by
  obtain ⟨rest, spelled⟩ := List.head?_eq_some_iff.mp absolute
  have some' : text.isEmpty = false := by
    rw [String.isEmpty_eq_false_iff]
    rintro rfl
    simp at spelled
  have plain : text.startsWith fileScheme = false := by
    rw [Bool.eq_false_iff, ne_eq, String.startsWith_string_iff, spelled]
    rintro ⟨more, same⟩
    simp [fileScheme] at same
  have rooted : (Path.ofText text).isAbsolute = true := by
    rw [Path.isAbsolute, Path.ofText, Text.utf8_eq_encode, spelled]
    rfl
  have path : s.root.join (.ofText text) = .ofText text := if_pos (.inl rooted)
  rw [resolve, some', plain, path]
  simp only [Bool.false_eq_true, if_false]

theorem resolve_text (s : Store) {p : Path} {text : String} (absolute : p.isAbsolute = true) (h : p.text? = some text) :
    s.resolve text =
      if hasScheme text.toList then .error (.invalidLocation ("unsupported scheme for local store: " ++ text))
      else .ok p := by
  have bytes := Text.utf8_of_ofUtf8? h
  rw [resolve_of_absolute s (p.head?_of_text? absolute h), Path.ofText, bytes]

end Artifact.Store

/-! ## Temporary names -/

namespace Boosting.Materializer

variable {m : Materializer} {fs fs' : FileSystem} {d : Location} {suffix : String} {n k : Nat}

/-- The text of the name of the temporary entry with a number. -/
def temporaryText (suffix : String) (n : Nat) : String := temporaryPrefix ++ toString n ++ suffix

/-- The name of the temporary entry with a number. -/
def temporaryName (suffix : String) (n : Nat) : Name := Text.utf8 (temporaryText suffix n)

theorem temporaryPath_eq (m : Materializer) (fs : FileSystem) (suffix : String) (n : Nat) :
    m.temporaryPath fs suffix n = (m.stagingRoot fs).child (temporaryName suffix n) := rfl

theorem toList_temporaryText (suffix : String) (n : Nat) :
    (temporaryText suffix n).toList = temporaryPrefix.toList ++ Nat.toDigits 10 n ++ suffix.toList := by
  rw [temporaryText, String.toList_append, String.toList_append, Nat.toString_eq_repr, Nat.toList_repr]

theorem temporaryName_inj (same : temporaryName suffix n = temporaryName suffix k) : n = k := by
  have texts := congrArg String.toList (Text.utf8_inj same)
  rw [toList_temporaryText, toList_temporaryText] at texts
  have digits := List.append_cancel_left (List.append_cancel_right texts)
  rw [← Nat.ofDigitChars_ten_toDigits (n := n), digits, Nat.ofDigitChars_ten_toDigits]

theorem tame_temporaryText (tame : Tame suffix.toList) (n : Nat) : Tame (temporaryText suffix n).toList := by
  intro c mem
  rw [toList_temporaryText, List.mem_append, List.mem_append] at mem
  obtain (mem | mem) | mem := mem
  · exact (by decide : Tame temporaryPrefix.toList) c mem
  · exact .of_isDigit (Nat.isDigit_of_mem_toDigits (by decide) (by decide) mem)
  · exact tame c mem

theorem exists_temporaryText (suffix : String) (n : Nat) : ∃ rest, (temporaryText suffix n).toList = 'z' :: rest := by
  rw [toList_temporaryText]
  exact ⟨_, rfl⟩

theorem segment_temporaryName (tame : Tame suffix.toList) (n : Nat) : Segment (temporaryName suffix n) := by
  obtain ⟨rest, begins⟩ := exists_temporaryText suffix n
  have name : temporaryName suffix n = 0x7a :: Text.encode rest := by
    rw [temporaryName, Text.utf8_eq_encode, begins]
    rfl
  refine ⟨by simp [name], by simp [name, Files.dot], by simp [name, Files.dotDot], fun mem => ?_⟩
  rw [temporaryName, Text.utf8_eq_encode] at mem
  exact (tame_temporaryText tame n '/' (Text.mem_of_mem_encode _ '/' (by decide) mem)).noSlash rfl

/-! ## Free places -/

theorem stagingRoot_congr (m : Materializer) (same : fs'.workingDirectory = fs.workingDirectory) :
    m.stagingRoot fs' = m.stagingRoot fs := by
  rw [stagingRoot, same, stagingRoot]

theorem isAbsolute_stagingRoot (m : Materializer) (fs : FileSystem) : (m.stagingRoot fs).isAbsolute = true := by
  have rooted : ∀ more, Path.isAbsolute ⟨slash :: more⟩ = true := fun _ => rfl
  rw [stagingRoot, Path.join]
  split
  · next h =>
    obtain absolute | empty := h
    · exact absolute
    · simp [Location.path] at empty
  split
  · exact rooted _
  · exact rooted _

theorem place_of_freshPath? (tame : Tame suffix.toList) {p : Path} (found : m.freshPath? fs suffix = some p) :
    ∃ n d, p = (m.stagingRoot fs).child (temporaryName suffix n) ∧
      fs.Place (m.stagingRoot fs) d (temporaryName suffix n) ∧ fs.node? (d ++ [temporaryName suffix n]) = none := by
  have free := List.find?_some found
  obtain ⟨n, -, rfl⟩ := List.mem_map.mp (List.mem_of_find?_eq_some found)
  rw [temporaryPath_eq] at free ⊢
  unfold isFree at free
  split at free
  · next l spot =>
    obtain ⟨d, place⟩ := FileSystem.place_of_locate (segment_temporaryName tame n) spot
    refine ⟨n, d, rfl, place, ?_⟩
    rw [place.locate false (by simp)] at spot
    cases node : fs.node? (d ++ [temporaryName suffix n]) with
    | none => rfl
    | some x => simp [node] at spot
  · simp at free

/-- **One of the first temporary names is free**, since there are more of them than entries. -/
theorem exists_freshPath? (places : ∀ n ≤ fs.entries.length, fs.Place (m.stagingRoot fs) d (temporaryName suffix n)) :
    ∃ n ≤ fs.entries.length, m.freshPath? fs suffix = some ((m.stagingRoot fs).child (temporaryName suffix n)) ∧
      fs.node? (d ++ [temporaryName suffix n]) = none := by
  have isFree_eq : ∀ n ≤ fs.entries.length,
      isFree fs (m.temporaryPath fs suffix n) = (fs.node? (d ++ [temporaryName suffix n])).isNone := by
    intro n le
    rw [isFree, temporaryPath_eq, (places n le).locate false (by simp)]
    cases fs.node? (d ++ [temporaryName suffix n]) <;> rfl
  have some' : m.freshPath? fs suffix ≠ none := by
    intro none'
    have taken := List.find?_eq_none.mp none'
    have distinct : ((List.range (fs.entries.length + 1)).map fun n => d ++ [temporaryName suffix n]).Nodup := by
      refine List.Nodup.map (fun n k same => ?_) List.nodup_range
      exact temporaryName_inj (List.cons.inj (List.append_cancel_left same)).1
    have within : ((List.range (fs.entries.length + 1)).map fun n => d ++ [temporaryName suffix n]) ⊆
        fs.entries.map (·.1) := by
      intro l mem
      obtain ⟨n, hn, rfl⟩ := List.mem_map.mp mem
      have le : n ≤ fs.entries.length := Nat.le_of_lt_succ (List.mem_range.mp hn)
      have busy := taken _ (List.mem_map.mpr ⟨n, hn, rfl⟩)
      rw [isFree_eq n le] at busy
      obtain ⟨x, node⟩ := Option.ne_none_iff_exists'.mp (mt Option.isNone_iff_eq_none.mpr busy)
      exact List.mem_map.mpr ⟨_, FileSystem.mem_entries_of_node? (by simp) node, rfl⟩
    have few := (List.subperm_of_subset distinct within).length_le
    simp only [List.length_map, List.length_range] at few
    omega
  obtain ⟨p, found⟩ := Option.ne_none_iff_exists'.mp some'
  have free := List.find?_some found
  obtain ⟨n, hn, rfl⟩ := List.mem_map.mp (List.mem_of_find?_eq_some found)
  have le : n ≤ fs.entries.length := Nat.le_of_lt_succ (List.mem_range.mp hn)
  rw [isFree_eq n le, Option.isNone_iff_eq_none] at free
  exact ⟨n, le, found, free⟩

/-! ## Staged paths in the store -/

/-- The path of the file of a booster in a temporary directory. -/
def stagedPath (root : Path) (n : Nat) : Path := (root.child (temporaryName "" n)).child (Text.utf8 fileName)

theorem segment_fileName : Segment (Text.utf8 fileName) := by
  rw [Text.utf8_eq_encode]
  decide

theorem resolve_stagedPath (s : Store) {root source : Path} (absolute : root.isAbsolute = true) {text : String}
    (h : (root.child (temporaryName ".json" n)).text? = some text) (resolved : s.resolve text = .ok source) (k : Nat) :
    source = root.child (temporaryName ".json" n) ∧
      ∃ text', (stagedPath root k).text? = some text' ∧ s.resolve text' = .ok (stagedPath root k) := by
  have tame : Tame (temporaryText ".json" n).toList := tame_temporaryText (by decide) n
  have segment : Segment (temporaryName ".json" n) := segment_temporaryName (by decide) n
  have segment' : Segment (temporaryName "" k) := segment_temporaryName (by decide) k
  rw [s.resolve_text ((root.isAbsolute_child segment).trans absolute) h] at resolved
  split at resolved
  · simp at resolved
  next noScheme =>
  refine ⟨(Except.ok.inj resolved).symm, ?_⟩
  simp only [temporaryName, Text.utf8_eq_encode] at h segment segment'
  obtain ⟨front, spelled, others⟩ := Path.text?_child tame segment h
  -- The rest of the path neither begins with a slash nor has a colon.
  obtain ⟨rest, begins⟩ := exists_temporaryText ".json" n
  obtain ⟨rest', begins'⟩ := exists_temporaryText "" k
  have noColon : ':' ∉ (temporaryText "" k).toList ++ '/' :: fileName.toList := by
    rw [List.mem_append, not_or]
    exact ⟨(tame_temporaryText (by decide) k).noColon, by decide⟩
  have bytes : (stagedPath root k).bytes =
      Text.utf8 (String.ofList (front ++ ((temporaryText "" k).toList ++ '/' :: fileName.toList))) := by
    rw [stagedPath, Path.bytes_child_child _ (segment_temporaryName (by decide) k) segment_fileName, temporaryName,
      Text.utf8_eq_encode (temporaryText "" k), others _ segment', Text.utf8_ofList, ← List.append_assoc,
      Text.encode_append (front ++ _), Text.utf8_eq_encode fileName]
    rfl
  have text' : (stagedPath root k).text? = some _ := (congrArg Text.ofUtf8? bytes).trans (Text.ofUtf8?_utf8 _)
  refine ⟨_, text', ?_⟩
  have absolute' : (stagedPath root k).isAbsolute = true := by
    rw [stagedPath, Path.isAbsolute_child _ segment_fileName,
      Path.isAbsolute_child _ (segment_temporaryName (by decide) k), absolute]
  rw [s.resolve_text absolute' text', if_neg]
  rw [String.toList_ofList, Store.hasScheme_append front (by simp [begins']) noColon,
    ← Store.hasScheme_append front (by simp [begins]) tame.noColon, ← spelled]
  exact noScheme

end Boosting.Materializer

end ModelDepot
