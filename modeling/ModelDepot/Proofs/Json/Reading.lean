import ModelDepot.Proofs.Json.Numerals
import ModelDepot.Proofs.Json.Quoted

/-! # Reading what was written

The reader takes a written value as a whole: it puts the document that the value's text spells where
it was expected, and stands behind the text. Blanks between the tokens make no difference, so this is
shown once for compact and for indented text.
-/

namespace ModelDepot

namespace Json

/-! ## What a value is read back as -/

mutual

/-- The document that a written value is read as: its numbers as they are read back, the members of its
objects in the order in which they were written. -/
def spelled : Json → Document
  | .null => .null
  | .bool b => .bool b
  | .number n => n.spelled
  | .string s => .string s
  | .array items => .array (spelledItems items)
  | .object ms => .object (spelledMembers ms)

def spelledItems : List Json → List Document
  | [] => []
  | v :: rest => v.spelled :: spelledItems rest

def spelledMembers : List (String × Json) → List (String × Document)
  | [] => []
  | (k, v) :: rest => (k, v.spelled) :: spelledMembers rest

end

namespace Reader

/-! ## The reader between tokens -/

/-- The document of a text whose beginning has been read. -/
def complete (s : State) (rest : List UInt8) : Option Document := (run (some s) rest).bind State.finish

/-- A number before it would end here. -/
def Stops (rest : List UInt8) : Prop := ∀ b ∈ rest.head?, isNumberByte b = false

/-- A value may begin. -/
structure State.Ready (s : State) : Prop where
  token : s.token = .none
  expecting : s.expecting = .value ∨ s.expecting = .valueOrEnd ∧ ∃ items outer, s.frames = .array items :: outer

/-- The reader takes a text as a document, wherever a value may begin. -/
def Reads (text : List UInt8) (d : Document) : Prop :=
  ∀ (s : State) (rest : List UInt8), s.Ready → Stops rest → complete s (text ++ rest) = complete (s.put d) rest

theorem complete_cons {s s' : State} {b : UInt8} {rest : List UInt8} (h : s.step b = some s') :
    complete s (b :: rest) = complete s' rest := by
  rw [complete, run, h, complete]

theorem step_between {s : State} (token : s.token = .none) (b : UInt8) : s.step b = s.between b := by
  rw [State.step, token]

theorem complete_blanks {s : State} (token : s.token = .none) {gap : List UInt8} (blank : ∀ b ∈ gap, isBlank b)
    (rest : List UInt8) : complete s (gap ++ rest) = complete s rest := by
  induction gap with
  | nil => rfl
  | cons b gap ih =>
    have step : s.step b = some s := by rw [step_between token, State.between, if_pos (blank b (by simp))]
    rw [List.cons_append, complete_cons step, ih fun c hc => blank c (by simp [hc])]

theorem put_congr {s t : State} (frames : t.frames = s.frames) (result : t.result = s.result) (d : Document) :
    t.put d = s.put d := by
  obtain ⟨fs, e, k, r⟩ := s
  obtain ⟨fs', e', k', r'⟩ := t
  obtain rfl : fs' = fs := frames
  obtain rfl : r' = r := result
  cases fs' with
  | nil => rfl
  | cons f fs => cases f <;> rfl

theorem put_token (s : State) (d : Document) : (s.put d).token = .none := by
  obtain ⟨fs, e, k, r⟩ := s
  cases fs with
  | nil => rfl
  | cons f fs => cases f <;> rfl

theorem step_of_ready {s : State} (ready : s.Ready) {b : UInt8} (blank : isBlank b = false) (hb : b ≠ 0x5d) :
    s.step b = s.open? b := by
  rw [step_between ready.token, State.between, if_neg (by simp [blank])]
  obtain ⟨frames, expecting, token, result⟩ := s
  obtain h | ⟨h, items, outer, hf⟩ := ready.expecting
  · simp only at h
    rw [h]
  · simp only at h hf
    rw [h, hf]
    simp [hb]

/-! ## Words -/

theorem reads_null : Reads [0x6e, 0x75, 0x6c, 0x6c] .null := by
  intro s rest ready _
  rw [List.cons_append, complete_cons ((step_of_ready ready (by decide) (by decide)).trans rfl)]
  rfl

theorem reads_true : Reads [0x74, 0x72, 0x75, 0x65] (.bool true) := by
  intro s rest ready _
  rw [List.cons_append, complete_cons ((step_of_ready ready (by decide) (by decide)).trans rfl)]
  rfl

theorem reads_false : Reads [0x66, 0x61, 0x6c, 0x73, 0x65] (.bool false) := by
  intro s rest ready _
  rw [List.cons_append, complete_cons ((step_of_ready ready (by decide) (by decide)).trans rfl)]
  rfl

/-! ## Numbers -/

theorem isBlank_of_isNumberByte {b : UInt8} (h : isNumberByte b) : isBlank b = false := by
  simp only [isBlank, Bool.or_eq_false_iff, decide_eq_false_iff_not]
  refine ⟨⟨⟨?_, ?_⟩, ?_⟩, ?_⟩
  all_goals
    rintro rfl
    exact absurd h (by decide)

theorem open?_number (s : State) {b : UInt8} (h : isNumberByte b) :
    s.open? b = some { s with token := .number [b] } := by
  unfold State.open?
  split
  all_goals first | exact absurd h (by decide) | rw [if_pos h]

theorem complete_number (s : State) (seen more rest : List UInt8) (h : ∀ b ∈ more, isNumberByte b) :
    complete { s with token := .number seen } (more ++ rest) =
      complete { s with token := .number (more.reverse ++ seen) } rest := by
  induction more generalizing seen with
  | nil => rfl
  | cons b more ih =>
    have step : State.step { s with token := .number seen } b = some { s with token := .number (b :: seen) } := by
      rw [State.step]
      exact if_pos (h b (by simp))
    rw [List.cons_append, complete_cons step, ih _ fun c hc => h c (by simp [hc])]
    simp

theorem complete_endNumber (s : State) (seen rest : List UInt8) (token : NumberToken)
    (read : NumberToken.ofBytes? seen.reverse = some token) (stops : Stops rest) :
    complete { s with token := .number seen } rest =
      complete (s.put (token.toNumber?.elim .unreadable .number)) rest := by
  have ended : State.endNumber { s with token := .number seen } seen =
      some (s.put (token.toNumber?.elim .unreadable .number)) := by
    rw [State.endNumber, read]
    exact congrArg some (put_congr rfl rfl _)
  cases rest with
  | nil =>
    have bare := put_token s (token.toNumber?.elim .unreadable .number)
    simp only [complete, run, Option.bind_some, State.finish, ended, bare]
  | cons b rest =>
    have step : State.step { s with token := .number seen } b =
        State.step (s.put (token.toNumber?.elim .unreadable .number)) b := by
      rw [step_between (put_token s _), State.step]
      simp only [stops b rfl, ended]
      rfl
    rw [complete, run, step, complete, run]

theorem reads_number (n : Number) : Reads (Text.utf8 n.text) n.spelled := by
  obtain ⟨num, wf, text⟩ | text := spells_text n
  · intro s rest ready stops
    have read := Numeral.ofBytes?_chars wf
    obtain ⟨b, bs, hbs⟩ := List.exists_cons_of_ne_nil (Numeral.encode_chars_ne_nil wf)
    have bytes : ∀ c ∈ b :: bs, isNumberByte c := fun c hc => Numeral.isNumberByte_of_mem wf c (hbs ▸ hc)
    have hb : isNumberByte b := bytes b (by simp)
    have notClose : b ≠ 0x5d := by
      rintro rfl
      exact absurd hb (by decide)
    rw [Number.spelled, Text.utf8_eq_encode, text, read, hbs, List.cons_append,
      complete_cons ((step_of_ready ready (isBlank_of_isNumberByte hb) notClose).trans (open?_number s hb)),
      complete_number s [b] bs rest fun c hc => bytes c (by simp [hc])]
    exact complete_endNumber s _ rest _ (by simpa [← hbs] using read) stops
  · have null : Text.utf8 n.text = [0x6e, 0x75, 0x6c, 0x6c] := by
      rw [text, Text.utf8_eq_encode]
      decide
    rw [Number.spelled, null]
    exact reads_null

/-! ## Texts -/

theorem utf8_quoted_append (s : String) (rest : List UInt8) :
    Text.utf8 (quoted s) ++ rest = 0x22 :: (inside s.toList ++ 0x22 :: rest) := by
  rw [utf8_quoted]
  simp

theorem complete_text (s : State) (isKey : Bool) (text : String) (rest : List UInt8) :
    complete { s with token := .text isKey .none [] } (inside text.toList ++ 0x22 :: rest) =
      complete ({ s with token := .text isKey .none (inside text.toList).reverse }.endText isKey
        (inside text.toList).reverse) rest := by
  rw [complete, run_text, complete]

theorem reads_quoted (text : String) : Reads (Text.utf8 (quoted text)) (.string text) := by
  intro s rest ready _
  have opened : s.step 0x22 = some { s with token := .text false .none [] } :=
    (step_of_ready ready (by decide) (by decide)).trans rfl
  rw [utf8_quoted_append, complete_cons opened, complete_text, State.endText, List.reverse_reverse, unquoted]
  exact congrArg (complete · rest) (put_congr rfl rfl _)

/-! ## Containers -/

/-- The texts of items with blanks around them and commas between them. -/
def itemsBody (gap last : List UInt8) : List (List UInt8 × Document) → List UInt8
  | [] => []
  | [p] => gap ++ p.1 ++ last
  | p :: rest => gap ++ p.1 ++ 0x2c :: itemsBody gap last rest

theorem stops_of_blank {gap rest : List UInt8} (blank : ∀ b ∈ gap, isBlank b) (stops : Stops rest) :
    Stops (gap ++ rest) := by
  cases gap with
  | nil => exact stops
  | cons b gap =>
    rintro c ⟨rfl⟩
    have hb := blank b (by simp)
    cases h : isNumberByte b with
    | false => rfl
    | true => rw [isBlank_of_isNumberByte h] at hb; exact absurd hb (by decide)

variable {gap last : List UInt8} (hgap : ∀ b ∈ gap, isBlank b) (hlast : ∀ b ∈ last, isBlank b)

theorem stops_cons {b : UInt8} (h : isNumberByte b = false) (rest : List UInt8) : Stops (b :: rest) := by
  rintro c ⟨rfl⟩
  exact h

theorem step_item (items : List Document) (outer : List Frame) (expecting : Expecting) (token : Token)
    (result : Option Document) (d : Document) :
    State.step (State.put ⟨.array items :: outer, expecting, token, result⟩ d) 0x5d =
        some (State.put ⟨outer, .value, .none, result⟩ (.array (items.reverse ++ [d]))) ∧
      State.step (State.put ⟨.array items :: outer, expecting, token, result⟩ d) 0x2c =
        some ⟨.array (d :: items) :: outer, .value, .none, result⟩ := by
  refine ⟨?_, rfl⟩
  rw [← List.reverse_cons]
  exact congrArg some (put_congr rfl rfl _)

include hgap hlast in
theorem complete_items (parts : List (List UInt8 × Document)) (ne : parts ≠ [])
    (reads : ∀ p ∈ parts, Reads p.1 p.2) (items : List Document) (outer : List Frame)
    (expecting : Expecting) (result : Option Document)
    (ready : State.Ready ⟨.array items :: outer, expecting, .none, result⟩) (rest : List UInt8) :
    complete ⟨.array items :: outer, expecting, .none, result⟩ (itemsBody gap last parts ++ 0x5d :: rest) =
      complete (State.put ⟨outer, .value, .none, result⟩ (.array (items.reverse ++ parts.map Prod.snd))) rest := by
  induction parts generalizing items expecting with
  | nil => exact absurd rfl ne
  | cons p parts ih =>
    have read := reads p (by simp)
    obtain ⟨closes, goesOn⟩ := step_item items outer expecting .none result p.2
    cases parts with
    | nil =>
      rw [itemsBody, List.append_assoc, List.append_assoc, complete_blanks rfl hgap,
        read _ _ ready (stops_of_blank hlast (stops_cons (by decide) rest)), complete_blanks (put_token _ _) hlast,
        complete_cons closes]
      rfl
    | cons q parts =>
      rw [itemsBody, List.append_assoc, List.append_assoc, List.cons_append, complete_blanks rfl hgap,
        read _ _ ready (stops_cons (by decide) _), complete_cons goesOn,
        ih (by simp) (fun r hr => reads r (by simp [hr])) _ _ ⟨rfl, .inl rfl⟩]
      · simp
      · simp

include hgap hlast in
theorem reads_array (parts : List (List UInt8 × Document)) (reads : ∀ p ∈ parts, Reads p.1 p.2) :
    Reads (0x5b :: (itemsBody gap last parts ++ [0x5d])) (.array (parts.map Prod.snd)) := by
  intro s rest ready _
  have opened : s.step 0x5b = some ⟨.array [] :: s.frames, .valueOrEnd, .none, s.result⟩ := by
    rw [step_of_ready ready (by decide) (by decide), ← ready.token]
    rfl
  rw [List.cons_append, complete_cons opened, List.append_assoc, List.singleton_append]
  cases parts with
  | nil =>
    have closes : State.step ⟨.array [] :: s.frames, .valueOrEnd, .none, s.result⟩ 0x5d =
        some (s.put (.array [])) := congrArg some (put_congr rfl rfl _)
    exact complete_cons closes
  | cons p parts =>
    rw [complete_items hgap hlast _ (by simp) reads _ _ _ _ ⟨rfl, .inr ⟨rfl, [], _, rfl⟩⟩]
    exact congrArg (complete · rest) (put_congr rfl rfl _)

/-- The text of a member: its key, and its value after a colon and blanks. -/
def memberText (mid : List UInt8) (key : String) (value : List UInt8) : List UInt8 :=
  Text.utf8 (quoted key) ++ 0x3a :: (mid ++ value)

/-- The texts of members, laid out like items. -/
def membersBody (gap mid last : List UInt8) (parts : List (String × List UInt8 × Document)) : List UInt8 :=
  itemsBody gap last (parts.map fun p => (memberText mid p.1 p.2.1, p.2.2))

variable {mid : List UInt8} (hmid : ∀ b ∈ mid, isBlank b)

include hmid in
theorem complete_member (key : String) (text : List UInt8) (d : Document) (reads : Reads text d)
    (ms : List (String × Document)) (outer : List Frame) (expecting : Expecting) (result : Option Document)
    (keyDue : expecting = .key ∨ expecting = .keyOrEnd) (rest : List UInt8) (stops : Stops rest) :
    complete ⟨.object (some ms) :: outer, expecting, .none, result⟩ (memberText mid key text ++ rest) =
      complete ⟨.object (some ((key, d) :: ms)) :: outer, .afterValue, .none, result⟩ rest := by
  have opened : State.step ⟨.object (some ms) :: outer, expecting, .none, result⟩ 0x22 =
      some ⟨.object (some ms) :: outer, expecting, .text true .none [], result⟩ := by
    obtain rfl | rfl := keyDue <;> rfl
  have colon : State.step ⟨.member (some ms) (some key) :: outer, .colon, .none, result⟩ 0x3a =
      some ⟨.member (some ms) (some key) :: outer, .value, .none, result⟩ := rfl
  rw [memberText, List.append_assoc, utf8_quoted_append, complete_cons opened, List.cons_append,
    complete_text ⟨.object (some ms) :: outer, expecting, .none, result⟩, State.endText, List.reverse_reverse,
    unquoted, if_pos rfl]
  simp only
  rw [complete_cons colon, List.append_assoc, complete_blanks rfl hmid, reads _ _ ⟨rfl, .inl rfl⟩ stops]
  rfl

include hgap hmid hlast in
theorem complete_members (parts : List (String × List UInt8 × Document)) (ne : parts ≠ [])
    (reads : ∀ p ∈ parts, Reads p.2.1 p.2.2) (ms : List (String × Document)) (outer : List Frame)
    (expecting : Expecting) (result : Option Document) (keyDue : expecting = .key ∨ expecting = .keyOrEnd)
    (rest : List UInt8) :
    complete ⟨.object (some ms) :: outer, expecting, .none, result⟩
        (membersBody gap mid last parts ++ 0x7d :: rest) =
      complete (State.put ⟨outer, .value, .none, result⟩
        (.object (ms.reverse ++ parts.map fun p => (p.1, p.2.2)))) rest := by
  induction parts generalizing ms expecting with
  | nil => exact absurd rfl ne
  | cons p parts ih =>
    have read := reads p (by simp)
    cases parts with
    | nil =>
      have closes : State.step ⟨.object (some ((p.1, p.2.2) :: ms)) :: outer, .afterValue, .none, result⟩ 0x7d =
          some (State.put ⟨outer, .value, .none, result⟩ (.object (ms.reverse ++ [(p.1, p.2.2)]))) := by
        rw [← List.reverse_cons]
        exact congrArg some (put_congr rfl rfl _)
      simp only [membersBody, List.map_cons, List.map_nil, itemsBody]
      rw [List.append_assoc, List.append_assoc, complete_blanks rfl hgap,
        complete_member hmid _ _ _ read _ _ _ _ keyDue _ (stops_of_blank hlast (stops_cons (by decide) rest)),
        complete_blanks rfl hlast, complete_cons closes]
    | cons q parts =>
      have goesOn : State.step ⟨.object (some ((p.1, p.2.2) :: ms)) :: outer, .afterValue, .none, result⟩ 0x2c =
          some ⟨.object (some ((p.1, p.2.2) :: ms)) :: outer, .key, .none, result⟩ := rfl
      have unfolded : membersBody gap mid last (p :: q :: parts) =
          gap ++ memberText mid p.1 p.2.1 ++ 0x2c :: membersBody gap mid last (q :: parts) := rfl
      rw [unfolded, List.append_assoc, List.append_assoc, List.cons_append, complete_blanks rfl hgap,
        complete_member hmid _ _ _ read _ _ _ _ keyDue _ (stops_cons (by decide) _), complete_cons goesOn,
        ih (by simp) (fun r hr => reads r (by simp [hr])) _ _ (.inl rfl)]
      simp

include hgap hmid hlast in
theorem reads_object (parts : List (String × List UInt8 × Document)) (reads : ∀ p ∈ parts, Reads p.2.1 p.2.2) :
    Reads (0x7b :: (membersBody gap mid last parts ++ [0x7d])) (.object (parts.map fun p => (p.1, p.2.2))) := by
  intro s rest ready _
  have opened : s.step 0x7b = some ⟨.object (some []) :: s.frames, .keyOrEnd, .none, s.result⟩ := by
    rw [step_of_ready ready (by decide) (by decide), ← ready.token]
    rfl
  rw [List.cons_append, complete_cons opened, List.append_assoc, List.singleton_append]
  cases parts with
  | nil =>
    have closes : State.step ⟨.object (some []) :: s.frames, .keyOrEnd, .none, s.result⟩ 0x7d =
        some (s.put (.object [])) := congrArg some (put_congr rfl rfl _)
    exact complete_cons closes
  | cons p parts =>
    rw [complete_members hgap hlast hmid _ (by simp) reads _ _ _ _ (.inr rfl)]
    exact congrArg (complete · rest) (put_congr rfl rfl _)

end Reader

/-! ## Compact text -/

open Reader
open Text (utf8_append)

/-- Items with their compact texts, and what these spell. -/
def compactParts (items : List Json) : List (List UInt8 × Document) :=
  items.map fun v => (Text.utf8 v.compact, v.spelled)

/-- Members with the compact texts of their values. -/
def compactMemberParts (ms : List (String × Json)) : List (String × List UInt8 × Document) :=
  ms.map fun m => (m.1, Text.utf8 m.2.compact, m.2.spelled)

theorem utf8_empty : Text.utf8 "" = [] := by rw [Text.utf8_eq_encode]; rfl
theorem utf8_comma : Text.utf8 "," = [0x2c] := by rw [Text.utf8_eq_encode]; decide
theorem utf8_colon : Text.utf8 ":" = [0x3a] := by rw [Text.utf8_eq_encode]; decide
theorem utf8_bracket : Text.utf8 "[" = [0x5b] := by rw [Text.utf8_eq_encode]; decide
theorem utf8_bracket' : Text.utf8 "]" = [0x5d] := by rw [Text.utf8_eq_encode]; decide
theorem utf8_brace : Text.utf8 "\x7b" = [0x7b] := by rw [Text.utf8_eq_encode]; decide
theorem utf8_brace' : Text.utf8 "\x7d" = [0x7d] := by rw [Text.utf8_eq_encode]; decide

theorem utf8_compactItems (items : List Json) :
    Text.utf8 (compactItems items) = itemsBody [] [] (compactParts items) := by
  induction items with
  | nil => exact utf8_empty
  | cons v rest ih =>
    cases rest with
    | nil => simp [compactItems, compactParts, itemsBody]
    | cons w rest =>
      rw [compactItems, utf8_append, utf8_append, utf8_comma, ih]
      · simp [compactParts, itemsBody]
      · simp

theorem utf8_compactMembers (ms : List (String × Json)) :
    Text.utf8 (compactMembers ms) = membersBody [] [] [] (compactMemberParts ms) := by
  induction ms with
  | nil => exact utf8_empty
  | cons m rest ih =>
    obtain ⟨k, v⟩ := m
    cases rest with
    | nil =>
      simp [compactMembers, compactMemberParts, membersBody, itemsBody, memberText, utf8_append, utf8_colon]
    | cons w rest =>
      rw [compactMembers, utf8_append, utf8_append, utf8_append, utf8_append, utf8_comma, utf8_colon, ih]
      · simp [compactMemberParts, membersBody, itemsBody, memberText]
      · simp

theorem spelledItems_eq (items : List Json) : spelledItems items = items.map spelled := by
  induction items with
  | nil => rfl
  | cons v rest ih => rw [spelledItems, ih, List.map_cons]

theorem spelledMembers_eq (ms : List (String × Json)) :
    spelledMembers ms = ms.map fun m => (m.1, m.2.spelled) := by
  induction ms with
  | nil => rfl
  | cons m rest ih => rw [spelledMembers, ih, List.map_cons]

theorem noBlanks : ∀ b ∈ ([] : List UInt8), isBlank b := by simp

mutual

theorem reads_compact (v : Json) : Reads (Text.utf8 v.compact) v.spelled := by
  cases v with
  | null =>
    rw [compact, Text.utf8_eq_encode]
    exact reads_null
  | bool b =>
    rw [compact, Text.utf8_eq_encode]
    cases b
    · exact reads_false
    · exact reads_true
  | number n => exact reads_number n
  | string s => exact reads_quoted s
  | array items =>
    have := reads_array noBlanks noBlanks (compactParts items) (reads_compactParts items)
    rw [compact, utf8_append, utf8_append, utf8_bracket, utf8_bracket', utf8_compactItems, spelled, spelledItems_eq]
    simpa [compactParts, Function.comp_def] using this
  | object ms =>
    have := reads_object noBlanks noBlanks noBlanks (compactMemberParts ms) (reads_compactMemberParts ms)
    rw [compact, utf8_append, utf8_append, utf8_brace, utf8_brace', utf8_compactMembers, spelled, spelledMembers_eq]
    simpa [compactMemberParts, Function.comp_def] using this

theorem reads_compactParts (items : List Json) : ∀ p ∈ compactParts items, Reads p.1 p.2 := by
  cases items with
  | nil => simp [compactParts]
  | cons v rest =>
    intro p hp
    obtain rfl | hp := List.mem_cons.mp hp
    · exact reads_compact v
    · exact reads_compactParts rest p hp

theorem reads_compactMemberParts (ms : List (String × Json)) :
    ∀ p ∈ compactMemberParts ms, Reads p.2.1 p.2.2 := by
  cases ms with
  | nil => simp [compactMemberParts]
  | cons m rest =>
    obtain ⟨k, v⟩ := m
    intro p hp
    obtain rfl | hp := List.mem_cons.mp hp
    · exact reads_compact v
    · exact reads_compactMemberParts rest p hp

end

/-! ## Indented text -/

/-- Items with their indented texts, and what these spell. -/
def indentedParts (level : Nat) (items : List Json) : List (List UInt8 × Document) :=
  items.map fun v => (Text.utf8 (v.indented level), v.spelled)

/-- Members with the indented texts of their values. -/
def indentedMemberParts (level : Nat) (ms : List (String × Json)) : List (String × List UInt8 × Document) :=
  ms.map fun m => (m.1, Text.utf8 (m.2.indented level), m.2.spelled)

theorem isBlank_lineStart (level : Nat) : ∀ b ∈ Text.utf8 (lineStart level), isBlank b := by
  have line : Text.utf8 "\n" = [0x0a] := by rw [Text.utf8_eq_encode]; decide
  intro b hb
  rw [lineStart, utf8_append, line, Text.utf8_ofList] at hb
  obtain hb | hb := List.mem_append.mp hb
  · rw [List.mem_singleton.mp hb]
    decide
  · obtain ⟨c, hc, hb⟩ := List.mem_flatMap.mp hb
    rw [List.eq_of_mem_replicate hc] at hb
    have space : String.utf8EncodeChar ' ' = [0x20] := by decide
    rw [space, List.mem_singleton] at hb
    rw [hb]
    decide

theorem utf8_space : Text.utf8 ": " = [0x3a, 0x20] := by rw [Text.utf8_eq_encode]; decide

theorem utf8_indentedItems (level : Nat) (last : List UInt8) (items : List Json) (ne : items ≠ []) :
    Text.utf8 (indentedItems level items) ++ last =
      itemsBody (Text.utf8 (lineStart level)) last (indentedParts level items) := by
  induction items with
  | nil => exact absurd rfl ne
  | cons v rest ih =>
    cases rest with
    | nil => simp [indentedItems, indentedParts, itemsBody, utf8_append]
    | cons w rest =>
      rw [indentedItems, utf8_append, utf8_append, utf8_append, utf8_comma, List.append_assoc, ih (by simp)]
      · simp [indentedParts, itemsBody]
      · simp

theorem utf8_indentedMembers (level : Nat) (last : List UInt8) (ms : List (String × Json)) (ne : ms ≠ []) :
    Text.utf8 (indentedMembers level ms) ++ last =
      membersBody (Text.utf8 (lineStart level)) [0x20] last (indentedMemberParts level ms) := by
  induction ms with
  | nil => exact absurd rfl ne
  | cons m rest ih =>
    obtain ⟨k, v⟩ := m
    cases rest with
    | nil =>
      simp [indentedMembers, indentedMemberParts, membersBody, itemsBody, memberText, utf8_append, utf8_space]
    | cons w rest =>
      rw [indentedMembers, utf8_append, utf8_append, utf8_append, utf8_append, utf8_append, utf8_comma,
        utf8_space, List.append_assoc, ih (by simp)]
      · simp [indentedMemberParts, membersBody, itemsBody, memberText]
      · simp

mutual

theorem reads_indented (level : Nat) (v : Json) : Reads (Text.utf8 (v.indented level)) v.spelled := by
  cases v with
  | array items =>
    have := reads_array (isBlank_lineStart (level + 1)) (isBlank_lineStart level)
      (indentedParts (level + 1) items) (reads_indentedParts (level + 1) items)
    cases items with
    | nil => exact reads_compact (.array [])
    | cons v rest =>
      rw [indented, utf8_append, utf8_append, utf8_append, utf8_bracket, utf8_bracket', List.append_assoc [0x5b],
        utf8_indentedItems _ _ _ (by simp), spelled, spelledItems_eq]
      · simpa [indentedParts, Function.comp_def] using this
      · simp
  | object ms =>
    have := reads_object (isBlank_lineStart (level + 1)) (isBlank_lineStart level)
      (List.forall_mem_singleton.mpr (show isBlank 0x20 by decide))
      (indentedMemberParts (level + 1) ms) (reads_indentedMemberParts (level + 1) ms)
    cases ms with
    | nil => exact reads_compact (.object [])
    | cons m rest =>
      rw [indented, utf8_append, utf8_append, utf8_append, utf8_brace, utf8_brace', List.append_assoc [0x7b],
        utf8_indentedMembers _ _ _ (by simp), spelled, spelledMembers_eq]
      · simpa [indentedMemberParts, Function.comp_def] using this
      · simp
  | _ => exact reads_compact _

theorem reads_indentedParts (level : Nat) (items : List Json) : ∀ p ∈ indentedParts level items, Reads p.1 p.2 := by
  cases items with
  | nil => simp [indentedParts]
  | cons v rest =>
    intro p hp
    obtain rfl | hp := List.mem_cons.mp hp
    · exact reads_indented level v
    · exact reads_indentedParts level rest p hp

theorem reads_indentedMemberParts (level : Nat) (ms : List (String × Json)) :
    ∀ p ∈ indentedMemberParts level ms, Reads p.2.1 p.2.2 := by
  cases ms with
  | nil => simp [indentedMemberParts]
  | cons m rest =>
    obtain ⟨k, v⟩ := m
    intro p hp
    obtain rfl | hp := List.mem_cons.mp hp
    · exact reads_indented level v
    · exact reads_indentedMemberParts level rest p hp

end

/-! ## Whole texts -/

theorem ofBytes?_of_reads (text : List UInt8) (d : Document) (reads : Reads text d) :
    Document.ofBytes? text = some d := by
  have := reads Reader.start [] ⟨rfl, .inl rfl⟩ (by simp [Stops])
  rw [List.append_nil] at this
  exact this

/-- **A written value is read back as what it spells**, in compact and in indented text. -/
theorem ofBytes?_written (v : Json) :
    Document.ofBytes? v.toBytes = some v.spelled ∧ Document.ofBytes? v.toIndentedBytes = some v.spelled :=
  ⟨ofBytes?_of_reads _ _ (reads_compact v), ofBytes?_of_reads _ _ (reads_indented 0 v)⟩

end Json

end ModelDepot
