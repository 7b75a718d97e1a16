import Mathlib.Data.List.TakeWhile
import ModelDepot.Proofs.Text.Utf8
import ModelDepot.Url.Reading

/-! # URLs that are added to

A URL is read from the front: what is put after its text leaves the scheme, the host and the pieces of the route
before it as they are.
-/

namespace ModelDepot

theorem takeWhile_append_of_dropWhile {α : Type} {p : α → Bool} {xs rest : List α} {x : α}
    (h : xs.dropWhile p = x :: rest) (ys : List α) : (xs ++ ys).takeWhile p = xs.takeWhile p := by
  rw [List.takeWhile_append, if_neg]
  intro whole
  have := congrArg List.length (List.takeWhile_append_dropWhile (p := p) (l := xs))
  rw [List.length_append, whole, h, List.length_cons] at this
  omega

theorem dropWhile_append_of_dropWhile {α : Type} {p : α → Bool} {xs rest : List α} {x : α}
    (h : xs.dropWhile p = x :: rest) (ys : List α) : (xs ++ ys).dropWhile p = x :: rest ++ ys := by
  rw [List.dropWhile_append, h]
  rfl

namespace Url

/-! ## Cleaning -/

def isOuter (c : Char) : Bool := c.toNat ≤ 0x20

def isInner (c : Char) : Bool := c ≠ '\t' && c ≠ '\n' && c ≠ '\r'

/-- What a text is read as when more comes after it. -/
def begun (cs : List Char) : List Char := (cs.dropWhile isOuter).filter isInner

theorem cleaned_eq (cs : List Char) :
    cleaned cs = ((cs.dropWhile isOuter).reverse.dropWhile isOuter).reverse.filter isInner := rfl

theorem dropWhile_of_head {α : Type} {p : α → Bool} {xs : List α} (h : ∀ x, xs.head? = some x → p x = false) :
    xs.dropWhile p = xs := by
  cases xs with
  | nil => rfl
  | cons x rest => rw [List.dropWhile_cons, h x rfl, if_neg Bool.false_ne_true]

theorem cleaned_append (cs ds : List Char) {d : Char} (h : isOuter d = false) :
    cleaned (cs ++ d :: ds) = begun cs ++ cleaned (d :: ds) := by
  have front : (cs ++ d :: ds).dropWhile isOuter = cs.dropWhile isOuter ++ d :: ds := by
    rw [List.dropWhile_append, List.dropWhile_cons_of_neg (by simp [h])]
    split
    · next all => rw [List.isEmpty_iff.mp all, List.nil_append]
    · rfl
  have back : ∀ es : List Char, ((es ++ d :: ds).reverse.dropWhile isOuter).reverse =
      es ++ ((d :: ds).reverse.dropWhile isOuter).reverse := by
    intro es
    obtain ⟨f, fs, rest⟩ := List.exists_cons_of_ne_nil (l := (d :: ds).reverse.dropWhile isOuter) fun none' => by
      have := List.dropWhile_eq_nil_iff.mp none' d (by simp)
      simp [h] at this
    rw [List.reverse_append, dropWhile_append_of_dropWhile rest, rest, List.reverse_append, List.reverse_reverse]
  rw [cleaned_eq, cleaned_eq, front, back, List.filter_append, List.dropWhile_cons_of_neg (by simp [h])]
  rfl

theorem cleaned_cons (ds : List Char) {d : Char} (outer : isOuter d = false) (inner : isInner d = true) :
    ∃ rest, cleaned (d :: ds) = d :: rest := by
  have front : (d :: ds).dropWhile isOuter = d :: ds := List.dropWhile_cons_of_neg (by simp [outer])
  have back : (ds.reverse ++ [d]).dropWhile isOuter = ds.reverse.dropWhile isOuter ++ [d] := by
    rw [List.dropWhile_append, List.dropWhile_cons_of_neg (by simp [outer])]
    split
    · next all => rw [List.isEmpty_iff.mp all, List.nil_append]
    · rfl
  rw [cleaned_eq, front, List.reverse_cons, back, List.reverse_append, List.reverse_singleton, List.singleton_append,
    List.filter_cons_of_pos inner]
  exact ⟨_, rfl⟩

theorem cleaned_of_kept {cs : List Char} (first : ∀ c, cs.head? = some c → isOuter c = false)
    (last : ∀ c, cs.getLast? = some c → isOuter c = false) (inner : ∀ c ∈ cs, isInner c = true) : cleaned cs = cs := by
  have back : ∀ c, cs.reverse.head? = some c → isOuter c = false := by simpa using last
  rw [cleaned_eq, dropWhile_of_head first, dropWhile_of_head back, List.reverse_reverse, List.filter_eq_self.mpr inner]

theorem exists_begun (cs : List Char) : ∃ blanks, begun cs = cleaned cs ++ blanks ∧ ∀ c ∈ blanks, isOuter c = true := by
  rw [cleaned_eq]
  unfold begun
  generalize cs.dropWhile isOuter = ds
  refine ⟨(ds.reverse.takeWhile isOuter).reverse.filter isInner, ?_, fun c mem => ?_⟩
  · rw [← List.filter_append, ← List.reverse_append, List.takeWhile_append_dropWhile, List.reverse_reverse]
  · exact List.mem_takeWhile_imp (List.mem_reverse.mp (List.mem_filter.mp mem).1)

theorem cleaned_of_last {cs : List Char} (last : ∀ c, (begun cs).getLast? = some c → isOuter c = false) :
    cleaned cs = begun cs := by
  obtain ⟨blanks, whole, outer⟩ := exists_begun cs
  rw [whole, List.getLast?_append] at last
  cases ends : blanks.getLast? with
  | none => rw [whole, List.getLast?_eq_none_iff.mp ends, List.append_nil]
  | some c =>
    have inside := last c (by rw [ends, Option.some_or])
    simp [outer c (List.mem_of_getLast? ends)] at inside

/-! ## Schemes -/

theorem takeScheme?_append {cs scheme rest : List Char} (h : takeScheme? cs = some (scheme, rest)) (more : List Char) :
    takeScheme? (cs ++ more) = some (scheme, rest ++ more) := by
  unfold takeScheme? at h ⊢
  dsimp only at h ⊢
  split at h
  · next c name after begins ends =>
    rw [takeWhile_append_of_dropWhile ends, dropWhile_append_of_dropWhile ends, List.cons_append]
    simp only [begins] at h ⊢
    split at h
    · next alpha =>
      obtain ⟨rfl, rfl⟩ := Prod.mk.inj (Option.some.inj h)
      exact if_pos alpha
    · simp at h
  · simp at h

theorem eq_of_takeScheme? {cs scheme rest : List Char} (h : takeScheme? cs = some (scheme, rest)) :
    ∃ name, cs = name ++ ':' :: rest := by
  unfold takeScheme? at h
  dsimp only at h
  split at h
  · next ends =>
    split at h
    · obtain rfl := (Prod.mk.inj (Option.some.inj h)).2
      exact ⟨_, (List.takeWhile_append_dropWhile.symm.trans (by rw [ends]))⟩
    · simp at h
  · simp at h

/-! ## Pieces -/

namespace Host

variable {isSeparator : Char → Bool}

theorem split_ne_nil (cs : List Char) : split isSeparator cs ≠ [] := by
  cases cs with
  | nil => simp [split]
  | cons c rest =>
    rw [split]
    split
    · simp
    · split <;> simp

theorem split_append (cs ds : List Char) {c : Char} (h : isSeparator c = true) :
    split isSeparator (cs ++ c :: ds) = split isSeparator cs ++ split isSeparator ds := by
  induction cs with
  | nil => simp [split, h]
  | cons d rest ih =>
    rw [List.cons_append, split, split, ih]
    split
    · rfl
    · obtain ⟨p, ps, pieces⟩ := List.exists_cons_of_ne_nil (@split_ne_nil isSeparator rest)
      rw [pieces]
      rfl

theorem split_of_forall {cs : List Char} (h : ∀ c ∈ cs, isSeparator c = false) : split isSeparator cs = [cs] := by
  induction cs with
  | nil => rfl
  | cons c rest ih =>
    obtain ⟨first, rest'⟩ := List.forall_mem_cons.mp h
    rw [split, first, ih rest']
    rfl

end Host

theorem addPieces_append (file : Bool) (segments ps : List (List Char)) {qs : List (List Char)} (ne : qs ≠ []) :
    addPieces file segments (ps ++ qs) = addPieces file (ps.foldl (addPiece file false) segments) qs := by
  induction ps generalizing segments with
  | nil => rfl
  | cons p rest ih =>
    obtain ⟨q, more, both⟩ := List.exists_cons_of_ne_nil (show rest ++ qs ≠ [] by simp [ne])
    rw [List.cons_append, both, addPieces, ← both, ih, List.foldl_cons]

theorem addPiece_of_plain (file last : Bool) (segments : List (List Char)) {piece : List Char}
    (single : isSingleDot piece = false) (double : isDoubleDot piece = false) :
    addPiece file last segments piece = segments ++ [escape inPath piece] := by
  unfold addPiece
  rw [double, single]
  rfl

theorem addPieces_of_plain (file : Bool) (segments : List (List Char)) {ps : List (List Char)}
    (plain : ∀ p ∈ ps, isSingleDot p = false ∧ isDoubleDot p = false) :
    addPieces file segments ps = segments ++ ps.map (escape inPath) := by
  induction ps generalizing segments with
  | nil => simp [addPieces]
  | cons p rest ih =>
    obtain ⟨⟨single, double⟩, plain⟩ := List.forall_mem_cons.mp plain
    cases rest with
    | nil => exact addPiece_of_plain file true segments single double
    | cons q more =>
      rw [addPieces, addPiece_of_plain file false segments single double, ih _ plain, List.append_assoc]
      rfl

theorem eq_of_toLower {c d : Char} (h : c.toLower = d) (plain : d.isLower = false) : c = d := by
  unfold Char.toLower at h
  split at h
  · next upper =>
    subst h
    have low := UInt32.le_iff_toNat_le.mp upper.1
    have high := UInt32.le_iff_toNat_le.mp upper.2
    change (decide (_ ≤ _) && decide (_ ≤ _)) = false at plain
    simp [UInt32.le_iff_toNat_le, UInt32.toNat_add] at plain low high
    omega
  · exact h

theorem dots_of_noEscape {piece : List Char} (noEscape : '%' ∉ piece) (ne_dot : piece ≠ ['.']) (ne_dotDot : piece ≠ ['.', '.']) :
    isSingleDot piece = false ∧ isDoubleDot piece = false := by
  have kept : '%' ∉ piece.map Char.toLower := by
    intro mem
    obtain ⟨c, hc, lower⟩ := List.mem_map.mp mem
    exact noEscape (eq_of_toLower lower (by decide) ▸ hc)
  have dots : ∀ n, piece.map Char.toLower = List.replicate n '.' → piece = List.replicate n '.' := by
    intro n h
    rw [List.eq_replicate_iff] at h ⊢
    refine ⟨by simpa using h.1, fun c hc => ?_⟩
    exact eq_of_toLower (h.2 _ (List.mem_map_of_mem hc)) (by decide)
  have spelled : ∀ t, String.ofList (piece.map Char.toLower) = t → piece.map Char.toLower = t.toList := by
    rintro _ rfl
    rw [String.toList_ofList]
  constructor
  · rw [Bool.eq_false_iff]
    intro step
    simp only [isSingleDot, List.contains_cons, List.contains_nil, Bool.or_eq_true, beq_iff_eq, Bool.or_false] at step
    rcases step with h | h
    · exact ne_dot (dots 1 (spelled _ h))
    · exact kept (by simp [spelled _ h])
  · rw [Bool.eq_false_iff]
    intro step
    simp only [isDoubleDot, List.contains_cons, List.contains_nil, Bool.or_eq_true, beq_iff_eq, Bool.or_false] at step
    rcases step with h | h | h | h
    · exact ne_dotDot (dots 2 (spelled _ h))
    all_goals exact kept (by simp [spelled _ h])

/-! ## Escapes -/

theorem hexValue?_hexDigit {n : Nat} (h : n < 16) : hexValue? (hexDigit n) = some n := by
  revert n
  decide

theorem unescape_escapeByte (b : UInt8) (cs : List Char) : unescape (escapeByte b ++ cs) = b :: unescape cs := by
  have small := b.toNat_lt
  simp only [escapeByte, List.cons_append, List.nil_append, unescape]
  rw [hexValue?_hexDigit (by omega), hexValue?_hexDigit (by omega)]
  simp only [List.cons.injEq, and_true]
  rw [Nat.mul_comm, Nat.div_add_mod, UInt8.ofNat_toNat]

theorem unescape_escapeBytes (bytes : List UInt8) (cs : List Char) :
    unescape (bytes.flatMap escapeByte ++ cs) = bytes ++ unescape cs := by
  induction bytes with
  | nil => rfl
  | cons b rest ih =>
    rw [List.flatMap_cons, List.append_assoc, unescape_escapeByte, ih]
    rfl

theorem utf8_singleton (c : Char) : Text.utf8 (String.singleton c) = String.utf8EncodeChar c := by
  rw [String.singleton_eq_ofList, Text.utf8_ofList, Text.encode_cons, Text.encode_nil, List.append_nil]

theorem unescape_cons {c : Char} (h : c ≠ '%') (cs : List Char) :
    unescape (c :: cs) = String.utf8EncodeChar c ++ unescape cs := by
  rw [unescape, utf8_singleton]
  rintro _ _ _ rfl
  exact absurd rfl h

theorem unescape_escape (reserved : Char → Bool) {cs : List Char} (noEscape : '%' ∉ cs) :
    unescape (escape reserved cs) = Text.encode cs := by
  induction cs with
  | nil => rfl
  | cons c rest ih =>
    obtain ⟨other, noEscape⟩ := List.ne_and_not_mem_of_not_mem_cons noEscape
    rw [escape, List.flatMap_cons, ← escape, Text.encode_cons, ← ih noEscape]
    split
    · rw [unescape_escapeBytes, utf8_singleton]
    · exact unescape_cons other.symm _

/-! ## Schemes with a host -/

/-- What follows the route: the query and the fragment. -/
def tailOf (cs : List Char) : Option (List Char) × Option (List Char) :=
  let tail := cs.dropWhile (! endsRoute ·)
  (match tail with
    | '?' :: more => some (more.takeWhile (· != '#'))
    | _ => none,
   match tail.dropWhile (· != '#') with
    | _ :: more => some more
    | [] => none)

theorem forall_of_tailOf {cs : List Char} (h : tailOf cs = (none, none)) : ∀ c ∈ cs, endsRoute c = false := by
  cases tail : cs.dropWhile (! endsRoute ·) with
  | nil => simpa using List.dropWhile_eq_nil_iff.mp tail
  | cons d more =>
    have ends : endsRoute d = true := by
      have := List.head?_dropWhile_not (! endsRoute ·) cs
      simpa [tail] using this
    unfold tailOf at h
    rw [tail] at h
    simp only [endsRoute, Bool.or_eq_true, beq_iff_eq] at ends
    rcases ends with rfl | rfl
    · simp at h
    · simp at h

theorem scheme_of_ofChars {text : List Char} {u : Url} (read : ofChars text = .ok u) :
    ∃ rest, takeScheme? (cleaned text) = some (u.scheme, rest) ∧
      (u.query = none → u.fragment = none → ∀ c ∈ rest, endsRoute c = false) := by
  unfold ofChars at read
  dsimp only at read
  cases begins : takeScheme? (cleaned text) with
  | none => simp [begins] at read
  | some begun =>
    obtain ⟨scheme, rest⟩ := begun
    simp only [begins] at read
    refine ⟨rest, ?_⟩
    repeat' first
      | obtain rfl := Except.ok.inj read
        exact ⟨rfl, fun noQuery noFragment => forall_of_tailOf
          (Prod.ext (Option.map_eq_none_iff.mp noQuery) (Option.map_eq_none_iff.mp noFragment))⟩
      | injection read
      | split at read

theorem ofChars_of_special {text scheme rest : List Char} (begins : takeScheme? (cleaned text) = some (scheme, rest))
    (other : scheme ≠ "file".toList) (special : (standardPort? (String.ofList scheme)).isSome)
    (inside : ∀ c ∈ rest, endsRoute c = false) :
    ofChars text =
      (authorityOf scheme true ((rest.dropWhile (isSlash true)).takeWhile (! isSlash true ·))).map fun a =>
        ⟨scheme, a.user, a.host, a.portNumber,
          routeOf true false ((rest.dropWhile (isSlash true)).dropWhile (! isSlash true ·)), none, none⟩ := by
  have body : rest.takeWhile (! endsRoute ·) = rest := List.takeWhile_eq_self_iff.mpr (by simpa using inside)
  have tail : rest.dropWhile (! endsRoute ·) = [] := List.dropWhile_eq_nil_iff.mpr (by simpa using inside)
  unfold ofChars
  simp only [begins, body, tail, other, special, decide_false, Bool.false_or, Bool.true_or, if_true, if_false]
  cases authorityOf scheme true ((rest.dropWhile (isSlash true)).takeWhile (! isSlash true ·)) <;> rfl

theorem routeOf_append (file : Bool) {front : List Char} (slashed : ∀ c, front.head? = some c → isSlash true c = true)
    (more : List Char) :
    ∃ cs, routeOf true file (front ++ '/' :: more) = .segments (segmentsOf true file cs) ∧
      Host.split (isSlash true) cs = (Host.split (isSlash true) front).tail ++ Host.split (isSlash true) more := by
  cases front with
  | nil => exact ⟨more, rfl, rfl⟩
  | cons c rest =>
    have slash := slashed c rfl
    refine ⟨rest ++ '/' :: more, ?_, ?_⟩
    · rw [List.cons_append, routeOf, slash]
      rfl
    · rw [Host.split_append rest more rfl, Host.split, slash]
      rfl

theorem takeWhile_slash (front more : List Char) :
    (front ++ '/' :: more).takeWhile (! isSlash true ·) = front.takeWhile (! isSlash true ·) := by
  rw [List.takeWhile_append]
  split
  · next whole => rw [List.takeWhile_cons_of_neg (by decide), List.append_nil,
      (List.takeWhile_prefix _).eq_of_length whole]
  · rfl

theorem dropWhile_slash (front more : List Char) :
    (front ++ '/' :: more).dropWhile (! isSlash true ·) = front.dropWhile (! isSlash true ·) ++ '/' :: more := by
  rw [List.dropWhile_append]
  split
  · next none' => rw [List.isEmpty_iff.mp none', List.dropWhile_cons_of_neg (by decide), List.nil_append]
  · rfl

theorem slashed_of_dropWhile (front : List Char) (c : Char) (h : (front.dropWhile (! isSlash true ·)).head? = some c) :
    isSlash true c = true := by
  have := List.head?_dropWhile_not (! isSlash true ·) front
  simpa [h] using this

theorem host_of_authorityOf {scheme cs : List Char} {a : Authority} (h : authorityOf scheme true cs = .ok a) :
    a.host.isSome := by
  unfold authorityOf at h
  dsimp only at h
  split at h
  · injection h
  · split at h
    · simp at h
    · split at h
      · injection h
      · split at h
        · injection h
        · rw [← Except.ok.inj h]
          rfl

theorem cleaned_slash (base : List Char) {more : List Char} (kept : ∀ c ∈ more, isInner c = true)
    (last : ∀ c, more.getLast? = some c → isOuter c = false) : cleaned (base ++ '/' :: more) = begun base ++ '/' :: more := by
  rw [cleaned_append base more rfl, cleaned_of_kept]
  · rintro _ ⟨⟩
    rfl
  · intro c ends
    cases more with
    | nil =>
      obtain rfl := Option.some.inj ends
      rfl
    | cons d more => exact last c (by rwa [List.getLast?_cons_cons] at ends)
  · intro c mem
    rcases List.mem_cons.mp mem with rfl | mem
    · rfl
    · exact kept c mem

theorem exists_front_of_takeScheme? {cs scheme rest : List Char} (begins : takeScheme? (cs ++ ['/']) = some (scheme, rest)) :
    ∃ front, rest = front ++ ['/'] := by
  obtain ⟨name, whole⟩ := eq_of_takeScheme? begins
  obtain rfl | ⟨front, c, rfl⟩ := List.eq_nil_or_concat rest
  · exact absurd (List.append_inj' whole rfl).2 (by simp)
  · rw [List.concat_eq_append, ← List.cons_append, ← List.append_assoc] at whole
    exact ⟨front, by rw [List.concat_eq_append, (List.append_inj' whole rfl).2]⟩

theorem routeOf_slash {path : List Char} (slashed : ∀ c, path.head? = some c → isSlash true c = true) (more : List Char) :
    routeOf true false (path ++ '/' :: more) =
      .segments (addPieces false (((Host.split (isSlash true) path).tail).foldl (addPiece false false) [])
        (Host.split (isSlash true) more)) := by
  obtain ⟨cs, route, pieces⟩ := routeOf_append false slashed more
  rw [route, segmentsOf, pieces, addPieces_append _ _ _ (Host.split_ne_nil more)]
  rfl

/-- What is put after a web address and a slash only adds to the segments of its route. -/
theorem ofChars_append {base : List Char} {u : Url} (read : ofChars (base ++ ['/']) = .ok u)
    (other : u.scheme ≠ "file".toList) (special : (standardPort? (String.ofList u.scheme)).isSome)
    (noQuery : u.query = none) (noFragment : u.fragment = none) :
    u.host.isSome ∧ ∃ ground, u.route = .segments (ground ++ [[]]) ∧
      ∀ more, (∀ c ∈ more, isInner c = true ∧ endsRoute c = false) →
        (∀ c, more.getLast? = some c → isOuter c = false) →
        ofChars (base ++ '/' :: more) =
          .ok { u with route := .segments (addPieces false ground (Host.split (isSlash true) more)) } := by
  obtain ⟨rest, begins, inside⟩ := scheme_of_ofChars read
  specialize inside noQuery noFragment
  rw [cleaned_slash base (by simp) (by simp)] at begins
  obtain ⟨front, rfl⟩ := exists_front_of_takeScheme? begins
  have within : ∀ more, (∀ c ∈ more, isInner c = true ∧ endsRoute c = false) →
      ∀ c ∈ front ++ '/' :: more, endsRoute c = false := by
    intro more kept c mem
    rcases List.mem_append.mp mem with mem | mem
    · exact inside c (List.mem_append_left _ mem)
    · rcases List.mem_cons.mp mem with rfl | mem
      · rfl
      · exact (kept c mem).2
  have web := fun more kept last =>
    have read : takeScheme? (cleaned (base ++ '/' :: more)) = some (u.scheme, front ++ '/' :: more) := by
      rw [cleaned_slash base (fun c mem => (kept c mem).1) last]
      simpa using takeScheme?_append begins more
    ofChars_of_special read other special (within more kept)
  cases host : front.dropWhile (isSlash true) with
  | nil =>
    have nothing : (front ++ ['/']).dropWhile (isSlash true) = [] := by
      rw [List.dropWhile_append, host]
      rfl
    rw [web [] (by simp) (by simp), nothing] at read
    exact absurd read (by simp [authorityOf, splitUser, splitPort, Except.map])
  | cons d after =>
    have skip : ∀ more, (front ++ '/' :: more).dropWhile (isSlash true) = d :: after ++ '/' :: more := fun more =>
      dropWhile_append_of_dropWhile host _
    simp only [skip, takeWhile_slash, dropWhile_slash] at web
    have slashed := slashed_of_dropWhile (d :: after)
    generalize (d :: after).dropWhile (! isSlash true ·) = path at web slashed
    rw [web [] (by simp) (by simp)] at read
    cases authority : authorityOf u.scheme true ((d :: after).takeWhile (! isSlash true ·)) with
    | error e => simp [authority, Except.map] at read
    | ok a =>
      simp only [authority, Except.map, Except.ok.injEq] at read web
      have route := routeOf_slash slashed
      refine ⟨?_, ((Host.split (isSlash true) path).tail).foldl (addPiece false false) [], ?_, fun more kept last => ?_⟩
      · rw [← read]
        exact host_of_authorityOf authority
      · rw [← read]
        exact route []
      · rw [web more kept last, route more, ← read]

end Url

end ModelDepot
