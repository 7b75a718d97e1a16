import ModelDepot.Proofs.Files.Changes

/-! # Paths below a directory

A path that has names put after it leads through where it led itself. Without links below there, it leads
to the location with the names put after it.
-/

namespace ModelDepot

namespace Files

/-! ## Pieces -/

/-- A name that can be put after a path: one piece, neither idle nor a step upward. -/
structure Segment (name : Name) : Prop where
  ne_nil : name ≠ []
  ne_dot : name ≠ dot
  ne_dotDot : name ≠ dotDot
  noSlash : slash ∉ name

theorem Segment.proper {name : Name} (segment : Segment name) (short : name.length ≤ maxName) : Proper name :=
  ⟨segment.ne_nil, segment.ne_dot, segment.ne_dotDot, short⟩

instance (name : Name) : Decidable (Segment name) :=
  decidable_of_iff (name ≠ [] ∧ name ≠ dot ∧ name ≠ dotDot ∧ slash ∉ name)
    ⟨fun ⟨h₁, h₂, h₃, h₄⟩ => ⟨h₁, h₂, h₃, h₄⟩, fun h => ⟨h.ne_nil, h.ne_dot, h.ne_dotDot, h.noSlash⟩⟩

theorem splitSlashes_append (xs ys : List UInt8) :
    splitSlashes (xs ++ slash :: ys) = splitSlashes xs ++ splitSlashes ys := by
  induction xs with
  | nil => simp [splitSlashes]
  | cons b rest ih =>
    rw [List.cons_append, splitSlashes, splitSlashes, ih]
    split
    · rfl
    · obtain ⟨p, ps, hp⟩ := List.exists_cons_of_ne_nil (splitSlashes_ne_nil rest)
      rw [hp]
      rfl

theorem splitSlashes_of_noSlash (name : List UInt8) (h : slash ∉ name) : splitSlashes name = [name] := by
  induction name with
  | nil => rfl
  | cons b rest ih =>
    have first : b ≠ slash := fun same => h (by simp [same])
    rw [splitSlashes, if_neg first, ih fun mem => h (List.mem_cons_of_mem b mem)]

namespace Path

/-- The path with names put after it. -/
def below (p : Path) (names : List Name) : Path := names.foldl child p

theorem child_eq (p : Path) {name : Name} (segment : Segment name) :
    p.child name =
      if p.bytes = [] then ⟨name⟩
      else if p.bytes.getLast? = some slash then ⟨p.bytes ++ name⟩
      else ⟨p.bytes ++ slash :: name⟩ := by
  have relative : (⟨name⟩ : Path).isAbsolute = false := by
    cases name with
    | nil => rfl
    | cons b rest =>
      have : b ≠ slash := fun h => segment.noSlash (by simp [h])
      simpa [isAbsolute] using this
  unfold child join
  simp only [relative, Bool.false_eq_true, false_or]

theorem exists_bytes_child (p : Path) :
    ∃ between, ∀ name, Segment name → (p.child name).bytes = p.bytes ++ between ++ name := by
  by_cases bare : p.bytes = [] ∨ p.bytes.getLast? = some slash
  · refine ⟨[], fun name segment => ?_⟩
    rw [child_eq p segment, List.append_nil]
    obtain empty | slashed := bare
    · rw [if_pos empty, empty, List.nil_append]
    · by_cases empty : p.bytes = []
      · rw [if_pos empty, empty, List.nil_append]
      · rw [if_neg empty, if_pos slashed]
  · rw [not_or] at bare
    exact ⟨[slash], fun name segment => by rw [child_eq p segment, if_neg bare.1, if_neg bare.2]; simp⟩

theorem isAbsolute_child (p : Path) {name : Name} (segment : Segment name) :
    (p.child name).isAbsolute = p.isAbsolute := by
  rw [child_eq p segment]
  obtain ⟨bytes⟩ := p
  cases bytes with
  | nil =>
    obtain ⟨b, rest, rfl⟩ := List.exists_cons_of_ne_nil segment.ne_nil
    have : b ≠ slash := fun h => segment.noSlash (by simp [h])
    simpa [isAbsolute] using this
  | cons b rest =>
    simp only [reduceCtorEq, if_false]
    split <;> rfl

theorem splitSlashes_child (p : Path) {name : Name} (segment : Segment name) :
    ∃ pieces, splitSlashes (p.child name).bytes = pieces ++ [name] ∧
      (splitSlashes p.bytes = pieces ∨ splitSlashes p.bytes = pieces ++ [[]]) := by
  have alone := splitSlashes_of_noSlash name segment.noSlash
  rw [child_eq p segment]
  by_cases empty : p.bytes = []
  · rw [if_pos empty, empty]
    exact ⟨[], alone, .inr rfl⟩
  rw [if_neg empty]
  by_cases slashed : p.bytes.getLast? = some slash
  · obtain ⟨xs, hxs⟩ := List.getLast?_eq_some_iff.mp slashed
    refine ⟨splitSlashes xs, ?_, .inr ?_⟩
    · rw [if_pos slashed, hxs, List.append_assoc, List.singleton_append, splitSlashes_append, alone]
    · rw [hxs, splitSlashes_append]
      rfl
  · refine ⟨splitSlashes p.bytes, ?_, .inl rfl⟩
    rw [if_neg slashed, splitSlashes_append, alone]

theorem isAbsolute_below (p : Path) (names : List Name) (segments : ∀ n ∈ names, Segment n) :
    (p.below names).isAbsolute = p.isAbsolute := by
  induction names generalizing p with
  | nil => rfl
  | cons n rest ih =>
    have segment := segments n (by simp)
    exact (ih (p.child n) fun m hm => segments m (by simp [hm])).trans (p.isAbsolute_child segment)

theorem splitSlashes_below (p : Path) {names : List Name} (some' : names ≠ [])
    (segments : ∀ n ∈ names, Segment n) :
    ∃ pieces, splitSlashes (p.below names).bytes = pieces ++ names ∧
      (splitSlashes p.bytes = pieces ∨ splitSlashes p.bytes = pieces ++ [[]]) := by
  induction names generalizing p with
  | nil => exact absurd rfl some'
  | cons n rest ih =>
    have segment := segments n (by simp)
    obtain ⟨pieces, spelled, before⟩ := p.splitSlashes_child segment
    cases rest with
    | nil => exact ⟨pieces, spelled, before⟩
    | cons m rest =>
      obtain ⟨pieces', spelled', same | same⟩ := ih (p.child n) (by simp) fun m hm => segments m (by simp [hm])
      · refine ⟨pieces, ?_, before⟩
        rw [← same, spelled, List.append_assoc] at spelled'
        exact spelled'
      · rw [spelled] at same
        have : n = [] := by simpa using congrArg List.getLast? same
        exact absurd this segment.ne_nil

end Path

/-! ## Leading -/

/-- The location that a spot is at. -/
def Spot.location : Spot → Location
  | .found l _ => l
  | .free l => l

namespace FileSystem

variable {fs fs' : FileSystem} {links left : Nat} {here there l : Location} {names more : List Name} {p : Path}

theorem Way.append {mid : Nat} (way : Way fs links here names mid there) (on : Way fs mid there more left l) :
    Way fs links here (names ++ more) left l := by
  induction way with
  | stay => exact on
  | idle directory idle _ ih => exact .idle directory idle (ih on)
  | up directory _ ih => exact .up directory (ih on)
  | down directory proper node notLink _ ih => exact .down directory proper node notLink (ih on)
  | link directory proper node _ ih =>
    have := ih on
    rw [List.append_assoc] at this
    exact .link directory proper node this

/-- The names of a path lead to a location. How long the path is does not matter. -/
def Leads (fs : FileSystem) (p : Path) (l : Location) : Prop :=
  ∃ left, Way fs maxLinks (if p.isAbsolute then [] else fs.workingDirectory) (splitSlashes p.bytes) left l

theorem Leads.grown (leads : fs.Leads p l) (grown : Grown fs fs') : fs'.Leads p l := by
  obtain ⟨left, way⟩ := leads
  refine ⟨left, ?_⟩
  rw [grown.workingDirectory]
  exact way.grown grown

theorem Leads.unique (leads : fs.Leads p l) {l' : Location} (leads' : fs.Leads p l') : l' = l := by
  obtain ⟨left, way⟩ := leads
  obtain ⟨left', way'⟩ := leads'
  exact (way.unique way').2

theorem directory_of_follow {last : Bool} {name : Name} {rest : List Name} {spot : Spot}
    (found : fs.follow last links here (name :: rest) = .ok spot) : fs.node? here = some .directory := by
  rw [follow.eq_def] at found
  by_cases directory : fs.node? here = some .directory
  · exact directory
  · simp [directory] at found

theorem proper_of_follow {last : Bool} {name : Name} {rest : List Name} {spot : Spot} (segment : Segment name)
    (found : fs.follow last links here (name :: rest) = .ok spot) : Proper name := by
  have directory := directory_of_follow found
  rw [follow.eq_def] at found
  simp only [directory, ne_eq, not_true, if_false, segment.ne_nil, segment.ne_dot, segment.ne_dotDot,
    false_or] at found
  split at found
  · simp at found
  · exact segment.proper (by omega)

theorem leads_of_locate {last : Bool} {spot : Spot} (some' : names ≠ []) (segments : ∀ n ∈ names, Segment n)
    (found : fs.locate last (p.below names) = .ok spot) :
    ∃ left there, fs.Leads p there ∧ fs.node? there = some .directory ∧
      fs.follow last left there names = .ok spot := by
  obtain ⟨-, -, found⟩ := follow_of_locate found
  obtain ⟨pieces, spelled, before⟩ := p.splitSlashes_below some' segments
  rw [p.isAbsolute_below names segments, spelled] at found
  obtain ⟨n, rest, rfl⟩ := List.exists_cons_of_ne_nil some'
  obtain ⟨left, there, way, goes⟩ := exists_way last ⟨n, by simp, (segments n (by simp)).ne_nil⟩ found
  have directory := directory_of_follow goes
  refine ⟨left, there, ⟨left, ?_⟩, directory, goes⟩
  obtain same | same := before
  · exact same ▸ way
  · exact same ▸ way.append (.idle directory (.inl rfl) (.stay _ _))

theorem location_of_follow {last : Bool} {spot : Spot} (segments : ∀ n ∈ names, Segment n)
    (noLinks : ∀ ns n, ns ≠ [] → ns <+: names → fs.node? (here ++ ns) = some n → ¬ n.IsLink)
    (found : fs.follow last links here names = .ok spot) : spot.location = here ++ names := by
  induction names generalizing here with
  | nil =>
    rw [follow.eq_def] at found
    cases node : fs.node? here with
    | none => simp [node] at found
    | some n =>
      simp only [node, Except.ok.injEq] at found
      subst found
      simp [Spot.location]
  | cons name rest ih =>
    have segment := segments name (by simp)
    have directory := directory_of_follow found
    have proper := proper_of_follow segment found
    cases node : fs.node? (here ++ [name]) with
    | none =>
      rw [follow_proper last directory proper, node] at found
      cases rest with
      | nil =>
        simp only [if_true, Except.ok.injEq] at found
        subst found
        rfl
      | cons m rest => simp at found
    | some n =>
      rw [follow_down last directory proper node (noLinks [name] n (by simp) ⟨rest, rfl⟩ node)] at found
      have := ih (fun m hm => segments m (by simp [hm])) (fun ns n ne before => by
        simpa using noLinks (name :: ns) n (by simp) (List.cons_prefix_cons.mpr ⟨rfl, before⟩)) found
      simpa using this

theorem unslashed_child {name : Name} (segment : Segment name) : unslashed (p.child name) = (p.child name, false) := by
  obtain ⟨xs, b, rfl⟩ := (List.eq_nil_or_concat name).resolve_left segment.ne_nil
  rw [List.concat_eq_append] at segment ⊢
  have other : b ≠ slash := fun same => segment.noSlash (by simp [same])
  obtain ⟨between, bytes⟩ := p.exists_bytes_child
  have ending : p.child (xs ++ [b]) = ⟨p.bytes ++ between ++ xs ++ [b]⟩ := by
    rw [List.append_assoc, ← bytes _ segment]
  rw [ending]
  simp [unslashed, other]

theorem writeSpot_child {name : Name} (segment : Segment name) :
    fs.writeSpot (p.child name) = fs.locate true (p.child name) := by
  rw [writeSpot, unslashed_child segment]
  rfl

end FileSystem

end Files

end ModelDepot
