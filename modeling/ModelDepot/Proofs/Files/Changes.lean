import ModelDepot.Files.Program
import ModelDepot.Proofs.Files.Ways

/-! # What file requests change

A request puts one node at one location. Making directories adds directories where nothing was, and
writing changes the bytes of one file or adds one.
-/

namespace ModelDepot

namespace Files

/-- Why a path cannot be looked up at all, whatever the file system. -/
def Path.fault? (p : Path) : Option Errno :=
  if p.bytes.contains 0 then some .invalidPath
  else if maxPath < p.bytes.length then some .nameTooLong
  else none

namespace FileSystem

variable {fs fs' : FileSystem} {l : Location} {n : Node}

/-! ## Putting -/

theorem lookup_map_put (entries : List (Location × Node)) (l k : Location) (n : Node) :
    (entries.map fun e => if e.1 = l then (l, n) else e).lookup k =
      if k = l then (entries.lookup l).map fun _ => n else entries.lookup k := by
  induction entries with
  | nil => simp
  | cons e rest ih =>
    obtain ⟨at', m⟩ := e
    rw [List.map_cons, List.lookup_cons, List.lookup_cons]
    by_cases here : at' = l
    · subst here
      rw [if_pos rfl, List.lookup_cons]
      by_cases asked : k = at'
      · simp [asked]
      · have missed : (k == at') = false := beq_eq_false_iff_ne.mpr asked
        simp only [missed, ih, if_neg asked]
    · rw [if_neg here]
      by_cases asked : k = l
      · subst asked
        have missed : (k == at') = false := beq_eq_false_iff_ne.mpr (Ne.symm here)
        simp only [missed, ih, if_true]
      · rw [ih, if_neg asked, if_neg asked, List.lookup_cons]

theorem node?_put (fs : FileSystem) {l : Location} (ne : l ≠ []) (n : Node) (k : Location) :
    (fs.put l n).node? k = if k = l then some n else fs.node? k := by
  unfold node? put
  by_cases root : k = []
  · subst root
    simp [Ne.symm ne]
  simp only [root, if_false]
  by_cases there : (fs.entries.lookup l).isSome
  · obtain ⟨m, hm⟩ := Option.isSome_iff_exists.mp there
    rw [if_pos there, lookup_map_put, hm, Option.map_some]
  · rw [if_neg there, List.lookup_append]
    have nothing : fs.entries.lookup l = none := Option.not_isSome_iff_eq_none.mp there
    by_cases asked : k = l
    · subst asked
      simp [nothing]
    · have missed : (k == l) = false := beq_eq_false_iff_ne.mpr asked
      simp only [List.lookup_cons, missed, List.lookup_nil, Option.or_none, if_neg asked]

theorem put_put (fs : FileSystem) (l : Location) (m n : Node) : (fs.put l m).put l n = fs.put l n := by
  unfold put
  cases there : fs.entries.lookup l with
  | some x =>
    have kept : (fs.entries.map fun e => if e.1 = l then (l, m) else e).lookup l = some m := by
      rw [lookup_map_put, if_pos rfl, there, Option.map_some]
    simp only [Option.isSome_some, if_true, kept, List.map_map]
    congr 1
    refine List.map_congr_left fun e _ => ?_
    by_cases here : e.1 = l <;> simp [here]
  | none =>
    have absent : ∀ e ∈ fs.entries, (if e.1 = l then (l, n) else e) = e := by
      intro e he
      rw [List.lookup_eq_none_iff] at there
      exact if_neg fun same => by simpa [same] using there e he
    simp [there, List.lookup_append, List.map_congr_left absent]

/-! ## Where requests lead -/

theorem locate_eq {p : Path} (last : Bool) (some' : p.bytes ≠ []) :
    fs.locate last p =
      match p.fault? with
      | some e => .error e
      | none => fs.follow last maxLinks (if p.isAbsolute then [] else fs.workingDirectory) (splitSlashes p.bytes) := by
  rw [locate, if_neg some', Path.fault?]
  split
  · rfl
  split <;> rfl

theorem follow_of_locate {p : Path} {last : Bool} {spot : Spot} (found : fs.locate last p = .ok spot) :
    p.bytes ≠ [] ∧ p.fault? = none ∧
      fs.follow last maxLinks (if p.isAbsolute then [] else fs.workingDirectory) (splitSlashes p.bytes) = .ok spot := by
  have some' : p.bytes ≠ [] := by
    intro empty
    simp [locate, empty] at found
  rw [locate_eq last some'] at found
  cases fine : p.fault? with
  | some e => simp [fine] at found
  | none => exact ⟨some', rfl, by simpa [fine] using found⟩

/-- What a spot says is so. -/
def Holds (fs : FileSystem) : Spot → Prop
  | .found l n => fs.node? l = some n
  | .free l => l ≠ [] ∧ fs.node? l = none

theorem holds_of_follow (last : Bool) {links : Nat} {here : Location} {names : List Name} {spot : Spot}
    (found : fs.follow last links here names = .ok spot) : fs.Holds spot := by
  fun_induction FileSystem.follow fs last links here names with
  | case1 links here n node =>
    cases found
    exact node
  | case7 _ here name _ _ _ _ there nothing =>
    cases found
    exact ⟨by simp [there], nothing⟩
  | case9 _ here name _ _ _ _ _ there target node =>
    cases found
    exact node
  | case4 _ _ _ _ _ _ ih => exact ih found
  | case5 _ _ _ _ _ ih => exact ih found
  | case11 _ _ _ _ _ _ _ _ _ _ _ _ ih => exact ih found
  | case12 _ _ _ _ _ _ _ _ _ _ _ _ ih => exact ih found
  | _ => simp at found

theorem holds_of_locate (last : Bool) {p : Path} {spot : Spot} (found : fs.locate last p = .ok spot) :
    fs.Holds spot :=
  holds_of_follow last (follow_of_locate found).2.2

/-! ## Making directories -/

/-- Nothing but directories was added, in free places. -/
structure Furnished (fs fs' : FileSystem) : Prop where
  node : ∀ l, fs'.node? l = fs.node? l ∨ fs.node? l = none ∧ fs'.node? l = some .directory
  workingDirectory : fs'.workingDirectory = fs.workingDirectory

theorem Furnished.refl (fs : FileSystem) : Furnished fs fs := ⟨fun _ => .inl rfl, rfl⟩

theorem Furnished.trans {fs'' : FileSystem} (h : Furnished fs fs') (h' : Furnished fs' fs'') :
    Furnished fs fs'' where
  node := by
    intro l
    obtain same | ⟨free, made⟩ := h.node l <;> obtain same' | ⟨free', made'⟩ := h'.node l
    · exact .inl (same'.trans same)
    · exact .inr ⟨same ▸ free', made'⟩
    · exact .inr ⟨free, same'.trans made⟩
    · simp [made] at free'
  workingDirectory := h'.workingDirectory.trans h.workingDirectory

theorem Furnished.kept (h : Furnished fs fs') (node : fs.node? l = some n) : fs'.node? l = some n := by
  obtain same | ⟨free, -⟩ := h.node l
  · exact same.trans node
  · simp [free] at node

theorem Furnished.grown (h : Furnished fs fs') : Grown fs fs' where
  node := fun _ n node => ⟨n, h.kept node, .refl n⟩
  workingDirectory := h.workingDirectory

theorem furnished_put (ne : l ≠ []) (free : fs.node? l = none) : Furnished fs (fs.put l .directory) where
  node := by
    intro k
    rw [node?_put fs ne]
    by_cases here : k = l
    · subst here
      exact .inr ⟨free, if_pos rfl⟩
    · exact .inl (if_neg here)
  workingDirectory := rfl

theorem furnished_makeDirectory {p : Path} (h : fs.makeDirectory p = .ok fs') : Furnished fs fs' := by
  unfold makeDirectory at h
  split at h
  · simp at h
  · next l found =>
    obtain ⟨ne, free⟩ := holds_of_locate _ found
    cases h
    exact furnished_put ne free
  · simp at h

/-- Whatever making each of some directories keeps, making the first of them and what is missing above it keeps, also
if it fails. -/
theorem makeLineage_keeps {I : FileSystem → Prop} (ps : List Path)
    (makes : ∀ p ∈ ps, ∀ fs fs', I fs → fs.makeDirectory p = .ok fs' → I fs') (start : I fs) : I (fs.makeLineage ps).2 := by
  induction ps generalizing fs with
  | nil => exact start
  | cons p parents ih =>
    have above := ih (fun q hq => makes q (by simp [hq])) start
    unfold makeLineage
    split
    · exact start
    split
    · next fs' made => exact makes p (by simp) _ _ start made
    · split
      · next made => rwa [made] at above
      · next made =>
        rw [made] at above
        split
        · next fs'' made' => exact makes p (by simp) _ _ above made'
        · exact above
    · exact start

theorem furnished_makeLineage (fs : FileSystem) (ps : List Path) : Furnished fs (fs.makeLineage ps).2 :=
  makeLineage_keeps ps (fun _ _ _ _ furnished made => furnished.trans (furnished_makeDirectory made)) (.refl fs)

theorem furnished_makeDirectories (fs : FileSystem) (p : Path) : Furnished fs (fs.makeDirectories p).2 :=
  furnished_makeLineage fs p.lineage

/-! ## Reading and writing -/

theorem read_eq {p : Path} {bytes : List UInt8} (h : fs.read p = .ok bytes) :
    ∃ l n, fs.locate true p = .ok (.found l n) ∧ (n = .file bytes ∨ n = .other ∨ n.IsLink) := by
  unfold read status at h
  cases found : fs.locate true p with
  | error e => simp [found] at h
  | ok spot =>
    cases spot with
    | free l => simp [found] at h
    | found l n =>
      refine ⟨l, n, rfl, ?_⟩
      cases n with
      | file old =>
        simp only [found, Except.ok.injEq] at h
        exact .inl (by rw [h])
      | directory => simp [found] at h
      | link target => exact .inr (.inr ⟨target, rfl⟩)
      | other => exact .inr (.inl rfl)

theorem write_eq {p : Path} {bytes : List UInt8} (h : fs.write p bytes = .ok fs') :
    (∃ l, (fs.writeSpot p = .ok (.free l) ∨ ∃ old, fs.writeSpot p = .ok (.found l (.file old))) ∧
        fs' = fs.put l (.file bytes)) ∨
      ∃ l n, fs.writeSpot p = .ok (.found l n) ∧ (n = .other ∨ n.IsLink) ∧ fs' = fs := by
  unfold write at h
  split at h
  · next l old spot => exact .inl ⟨l, .inr ⟨old, spot⟩, (Except.ok.inj h).symm⟩
  · simp at h
  · next l n noFile noDirectory spot =>
    refine .inr ⟨l, n, spot, ?_, (Except.ok.inj h).symm⟩
    cases n with
    | file old => exact absurd rfl (noFile old)
    | directory => exact absurd rfl noDirectory
    | link target => exact .inr ⟨target, rfl⟩
    | other => exact .inl rfl
  · next l spot => exact .inl ⟨l, .inl spot, (Except.ok.inj h).symm⟩
  · simp at h

theorem read_of_copy {source p : Path} (copied : fs.copy source p = .ok fs') : ∃ bytes, fs.read source = .ok bytes := by
  unfold copy at copied
  split at copied
  · simp at copied
  · next bytes read => exact ⟨bytes, read⟩

theorem copy_keeps {I : FileSystem → Prop} {source p : Path} (copied : fs.copy source p = .ok fs')
    (writes : ∀ fs fs' bytes, I fs → fs.write p bytes = .ok fs' → I fs') (start : I fs) : I fs' := by
  unfold copy at copied
  split at copied
  · simp at copied
  split at copied
  · simp at copied
  next emptied written =>
  split at copied
  · simp at copied
  · exact writes _ _ _ (writes _ _ _ start written) copied

theorem grown_put {bytes : List UInt8} (ne : l ≠ [])
    (file : fs.node? l = none ∨ ∃ old, fs.node? l = some (.file old)) :
    Grown fs (fs.put l (.file bytes)) where
  node := by
    intro k n hn
    rw [node?_put fs ne]
    by_cases here : k = l
    · subst here
      obtain free | ⟨old, there⟩ := file
      · simp [free] at hn
      · rw [there, Option.some.injEq] at hn
        subst hn
        exact ⟨_, if_pos rfl, trivial⟩
    · exact ⟨n, (if_neg here).trans hn, .refl n⟩
  workingDirectory := rfl

end FileSystem

/-! ## Programs -/

namespace Program

variable {α β : Type} (fs : FileSystem) (p : Path)

theorem run_pure (a : α) : (pure a : Program α).run fs = (a, fs) := rfl

theorem run_bind (first : Program α) (next : α → Program β) :
    (first >>= next).run fs = (next (first.run fs).1).run (first.run fs).2 := run_andThen first next fs

theorem run_present (next : Bool → Program α) :
    (present p done >>= next).run fs = (next (fs.present p)).run fs := rfl

theorem run_names (next : Except Errno (List Name) → Program α) :
    (names p done >>= next).run fs = (next (fs.names p)).run fs := rfl

theorem run_read : (read p done).run fs = (fs.read p, fs) := rfl

theorem run_makeDirectories : (makeDirectories p done).run fs = fs.makeDirectories p := rfl

theorem run_write (bytes : List UInt8) : (write p bytes done).run fs = written fs p bytes := rfl

end Program

end Files

end ModelDepot
