import Mathlib
import ModelDepot.Proofs.Records.Origins

/-! # A copy mirrors what the walk finds

A copy that succeeds to an output that is detached from the walk holds what the walk of the source found before: all
files with their bytes, and all directories. Nothing else has changed but for directories that were missing.
-/

namespace ModelDepot

open Files (FileSystem Location Name Node Path Segment Spot maxPath)
open Files.FileSystem (Extended Furnished Grown Stocked)

namespace Records

variable {fs fs' fs₀ : FileSystem} {source target place here there : Location} {above : List Location} {r q : List Name}
  {name : Name} {p : Path} {e : Entry} {bytes : List UInt8}

/-! ## What the walk finds -/

/-- The walk finds a file with some bytes at the end of some names: in its place, or where a link leads. -/
def Finds (fs : FileSystem) (source : Location) (r : List Name) (bytes : List UInt8) : Prop :=
  ∃ above place, Listed fs source r above place ∧
    (fs.node? place = some (.file bytes) ∨
      ∃ to' l, fs.node? place = some (.link to') ∧ fs.status (Location.path (source ++ r)) = .ok (l, .file bytes))

theorem Finds.meets (finds : Finds fs source r bytes) : Meets fs source r .record := by
  obtain ⟨above, place, listed, node | ⟨to', l, node, found⟩⟩ := finds
  · exact ⟨above, place, listed, by rw [entryAt, node]⟩
  · exact ⟨above, place, listed, by simp only [entryAt, node, found]⟩

theorem Meets.finds (meets : Meets fs source r .record) : ∃ bytes, Finds fs source r bytes := by
  obtain ⟨above, place, listed, entry⟩ := meets
  rcases record_of_entryAt entry with ⟨bytes, node⟩ | ⟨to', l, bytes, node, found⟩
  · exact ⟨bytes, above, place, listed, .inl node⟩
  · exact ⟨bytes, above, place, listed, .inr ⟨to', l, node, found⟩⟩

theorem Finds.unique {bytes' : List UInt8} (finds : Finds fs source r bytes) (finds' : Finds fs source r bytes') :
    bytes' = bytes := by
  obtain ⟨above, place, listed, at'⟩ := finds
  obtain ⟨above', place', listed', again⟩ := finds'
  obtain ⟨rfl, rfl⟩ := listed.unique listed'
  obtain node | ⟨to', l, node, found⟩ := at' <;> obtain node' | ⟨to'', l', node', found'⟩ := again
  · simpa using node'.symm.trans node
  · simpa using node'.symm.trans node
  · simpa using node'.symm.trans node
  · obtain ⟨-, same⟩ := Prod.mk.inj (Except.ok.inj (found'.symm.trans found))
    exact Node.file.inj same

/-! ## Where the paths of the walk lead -/

theorem directory_of_listed (sound : fs.Sound) (listed : name ∈ fs.list here) : fs.node? here = some .directory := by
  obtain ⟨n, node⟩ := FileSystem.node?_of_mem_list listed
  exact sound.parents _ _ _ node

theorem location_of_child {spot : Spot} (some' : p.bytes ≠ [])
    (leads : ∀ spot, fs.locate true p = .ok spot → spot.location = here) (segment : Segment name)
    (notLink : ∀ n, fs.node? (here ++ [name]) = some n → ¬ n.IsLink)
    (found : fs.locate true (p.child name) = .ok spot) : spot.location = here ++ [name] := by
  have segments : ∀ n ∈ [name], Segment n := by simpa using segment
  obtain ⟨left, l, leads', directory, goes⟩ := FileSystem.leads_of_locate (by simp) segments found
  have fine := Path.fault?_of_child segment (FileSystem.follow_of_locate found).2.1
  have reaches : fs.Reaches p l := ⟨fine, some', leads'⟩
  obtain rfl : l = here := leads _ (reaches.locate directory)
  refine FileSystem.location_of_follow segments (fun ns n ne start node => ?_) goes
  obtain ⟨first, rest, rfl⟩ := List.exists_cons_of_ne_nil ne
  obtain ⟨rfl, last⟩ := List.cons_prefix_cons.mp start
  obtain rfl := List.prefix_nil.mp last
  exact notLink n node

theorem Visits.location (visits : Visits fs source r above here) (sound : fs.Sound) (proper : source.Proper)
    (directory : fs.node? here = some .directory) {spot : Spot}
    (found : fs.locate true (Location.path (source ++ r)) = .ok spot) : spot.location = here := by
  induction visits generalizing spot with
  | start =>
    rw [List.append_nil] at found
    refine FileSystem.location_of_locate proper (fun k n before node => ?_) found
    obtain ⟨more, rfl⟩ := before
    by_cases ne : more = []
    · subst ne
      rw [List.append_nil] at directory
      simp [Option.some.inj (node.symm.trans directory), Node.IsLink]
    · simp [Option.some.inj (node.symm.trans (sound.above ne directory)), Node.IsLink]
  | @into r above here name there visits listed entry fits ih =>
    rcases directory_of_entryAt entry with ⟨rfl, node⟩ | ⟨to', node, status⟩
    · have segment := sound.segments_of_list _ listed
      rw [← List.append_assoc, ← Location.child_path (proper.append (visits.proper sound)) segment] at found
      refine location_of_child (by simp [Location.path]) (fun _ => ih (directory_of_listed sound listed)) segment ?_ found
      intro n node'
      simp [Option.some.inj (node'.symm.trans node), Node.IsLink]
    · obtain rfl := Except.ok.inj ((FileSystem.locate_of_status status).symm.trans found)
      rfl

theorem Listed.location (listed : Listed fs source r above place) (sound : fs.Sound) (proper : source.Proper)
    (notLink : ∀ n, fs.node? place = some n → ¬ n.IsLink) {spot : Spot}
    (found : fs.locate true (Location.path (source ++ r)) = .ok spot) : spot.location = place := by
  cases listed with
  | mk visits inside =>
    have segment := sound.segments_of_list _ inside
    rw [← List.append_assoc, ← Location.child_path (proper.append (visits.proper sound)) segment] at found
    exact location_of_child (by simp [Location.path])
      (fun _ => visits.location sound proper (directory_of_listed sound inside)) segment notLink found

/-! ## On the way -/

/-- What holds on the way from the file system before: the walk is as it was there, and so are all devices. -/
structure Midway (fs₀ : FileSystem) (target : Location) (fs : FileSystem) : Prop where
  aside : Aside target fs₀ fs
  stocked : Stocked fs₀ fs
  distinct : fs.Distinct

theorem Midway.makes (midway : Midway fs₀ target fs) (sound : fs.Sound) (proper : place.Proper)
    (inside : target <+: place) : Midway fs₀ target (fs.makeDirectories place.path).2 where
  aside := midway.aside.makeDirectories sound proper inside
  stocked := midway.stocked.trans (FileSystem.furnished_makeDirectories fs _).stocked
  distinct := midway.distinct.makeDirectories _

theorem Midway.copies (midway : Midway fs₀ target fs) (sound : fs.Sound) (proper : place.Proper) (ne : place ≠ target)
    (inside : target <+: place) (origin : Path) : Midway fs₀ target (copyRecord origin place.path fs).2 where
  aside := midway.aside.copyRecord sound proper ne inside origin
  stocked := copyRecord_keeps origin _ (midway.stocked.trans (FileSystem.furnished_makeDirectories fs _).stocked)
    fun _ _ stocked copied => stocked.trans (FileSystem.stocked_copy copied)
  distinct := copyRecord_keeps origin _ (midway.distinct.makeDirectories _) fun _ _ distinct copied => distinct.copy copied

/-! ## What is mirrored -/

/-- The entries at the end of the names in `scope`, as the walk met them before, are mirrored by what has been done
since a moment: the files among them are at the end of the given names, and nothing else has changed but for
directories that were missing. -/
structure Mirrors (fs₀ : FileSystem) (source target : Location) (scope : Set (List Name)) (fs fs' : FileSystem)
    (records : List (List Name)) : Prop where
  nodup : records.Nodup
  mem_iff : ∀ q, q ∈ records ↔ q ∈ scope ∧ Meets fs₀ source q .record
  copies : ∀ q ∈ scope, ∀ bytes, Finds fs₀ source q bytes → fs'.node? (target ++ q) = some (.file bytes)
  directories : ∀ q ∈ scope, ∀ there, Meets fs₀ source q (.directory there) →
    fs'.node? (target ++ q) = some .directory
  others : ∀ l, (∀ q ∈ records, l ≠ target ++ q) →
    fs'.node? l = fs.node? l ∨ fs.node? l = none ∧ fs'.node? l = some .directory

namespace Mirrors

variable {scope scope' : Set (List Name)} {records records' : List (List Name)} {fs'' : FileSystem}

theorem congr (mirrors : Mirrors fs₀ source target scope fs fs' records)
    (same : ∀ q e, Meets fs₀ source q e → (q ∈ scope' ↔ q ∈ scope)) :
    Mirrors fs₀ source target scope' fs fs' records where
  nodup := mirrors.nodup
  mem_iff := by
    intro q
    rw [mirrors.mem_iff]
    constructor
    · rintro ⟨inside, meets⟩
      exact ⟨(same q _ meets).mpr inside, meets⟩
    · rintro ⟨inside, meets⟩
      exact ⟨(same q _ meets).mp inside, meets⟩
  copies := fun q inside bytes finds => mirrors.copies q ((same q _ finds.meets).mp inside) bytes finds
  directories := fun q inside there meets => mirrors.directories q ((same q _ meets).mp inside) there meets
  others := mirrors.others

theorem stays (mirrors : Mirrors fs₀ source target scope' fs fs' records) {q : List Name} (outside : q ∉ scope') {n : Node}
    (node : fs.node? (target ++ q) = some n) : fs'.node? (target ++ q) = some n := by
  have other : ∀ q' ∈ records, target ++ q ≠ target ++ q' := by
    intro q' mem same
    obtain rfl := List.append_cancel_left same
    exact outside ((mirrors.mem_iff q).mp mem).1
  obtain kept | ⟨free, -⟩ := mirrors.others _ other
  · exact kept.trans node
  · simp [node] at free

theorem append (mirrors : Mirrors fs₀ source target scope fs fs' records)
    (mirrors' : Mirrors fs₀ source target scope' fs' fs'' records') (disjoint : Disjoint scope scope') :
    Mirrors fs₀ source target (scope ∪ scope') fs fs'' (records ++ records') where
  nodup := by
    refine List.nodup_append'.mpr ⟨mirrors.nodup, mirrors'.nodup, fun q mem mem' => ?_⟩
    exact Set.disjoint_left.mp disjoint ((mirrors.mem_iff q).mp mem).1 ((mirrors'.mem_iff q).mp mem').1
  mem_iff := by
    intro q
    rw [List.mem_append, mirrors.mem_iff, mirrors'.mem_iff, Set.mem_union, or_and_right]
  copies := by
    rintro q (inside | inside) bytes finds
    · exact mirrors'.stays (Set.disjoint_left.mp disjoint inside) (mirrors.copies q inside bytes finds)
    · exact mirrors'.copies q inside bytes finds
  directories := by
    rintro q (inside | inside) there meets
    · exact mirrors'.stays (Set.disjoint_left.mp disjoint inside) (mirrors.directories q inside there meets)
    · exact mirrors'.directories q inside there meets
  others := by
    intro l other
    have first := mirrors.others l fun q mem => other q (List.mem_append_left _ mem)
    have second := mirrors'.others l fun q mem => other q (List.mem_append_right _ mem)
    rcases first with kept | ⟨free, made⟩
    · rwa [kept] at second
    · rcases second with kept | ⟨free', -⟩
      · exact .inr ⟨free, kept.trans made⟩
      · simp [made] at free'

theorem idle (idle : ∀ q ∈ scope, ∀ e, Meets fs₀ source q e → e = .idle) :
    Mirrors fs₀ source target scope fs fs [] where
  nodup := .nil
  mem_iff := by
    intro q
    refine ⟨fun mem => absurd mem List.not_mem_nil, ?_⟩
    rintro ⟨inside, meets⟩
    simpa using idle q inside _ meets
  copies := by
    intro q inside bytes finds
    simpa using idle q inside _ finds.meets
  directories := by
    intro q inside there meets
    simpa using idle q inside _ meets
  others := fun _ _ => .inl rfl

end Mirrors

/-! ## One entry -/

/-- What one of the names leads to, put after others, and what is below that. -/
def Below (r names : List Name) : Set (List Name) := {q | ∃ m ∈ names, r ++ [m] <+: q}

theorem below_cons (r : List Name) (name : Name) (rest : List Name) : Below r (name :: rest) = Below r [name] ∪ Below r rest := by
  ext q
  simp [Below]

theorem disjoint_below {names names' : List Name} (disjoint : ∀ m ∈ names, m ∉ names') :
    Disjoint (Below r names) (Below r names') := by
  refine Set.disjoint_left.mpr ?_
  rintro q ⟨m, mem, before⟩ ⟨m', mem', before'⟩
  have same := List.prefix_of_prefix_length_le before before' (by simp)
  obtain ⟨-, last⟩ := List.append_inj' (same.eq_of_length (by simp)) rfl
  exact disjoint m mem (List.singleton_inj.mp last ▸ mem')

theorem Detached.noLinks_below (detached : Detached fs₀ source target) (aside : Aside target fs₀ fs) (q : List Name) :
    ∀ k n, k <+: target ++ q → fs.node? k = some n → ¬ n.IsLink := by
  intro k n before
  have line := List.prefix_or_prefix_of_prefix before (List.prefix_append target q)
  exact aside.extended.notLink (fun m => detached.noLinks k m line) n

/-- A record that is met while records are copied has been found before, with the bytes that are read now. -/
theorem found_of_record {fs₁ : FileSystem} {spot : Spot} (detached : Detached fs₀ source target)
    (aside : Aside target fs₀ fs) (proper : source.Proper) (listed : Listed fs source r above place)
    (entry : entryAt fs above place (Location.path (source ++ r)) = .ok .record) (furnished : Furnished fs fs₁)
    (sound : fs₁.Sound) (found : fs₁.locate true (Location.path (source ++ r)) = .ok spot) :
    ∃ t bytes, Finds fs₀ source r bytes ∧ Off target t ∧ fs₁.Reaches (Location.path (source ++ r)) t ∧
      fs₁.node? t = some (.file bytes) := by
  have before : Listed fs₀ source r above place ∧ Off target place := by
    cases listed with
    | mk visits inside =>
      have visits := detached.separate.visits aside visits
      exact ⟨detached.separate.listed aside visits inside, (detached.off visits).child _⟩
  have kept := fun {l} (off : Off target l) => aside.kept l (detached.apart off) l (List.prefix_refl l)
  rcases record_of_entryAt entry with ⟨bytes, node⟩ | ⟨to', l, bytes, node, status⟩
  · have node₁ := furnished.kept node
    have at' : spot.location = place := by
      refine (listed.grown furnished.grown).location sound proper (fun n node' => ?_) found
      simp [Option.some.inj (node'.symm.trans node₁), Node.IsLink]
    have reaches : fs₁.Reaches (Location.path (source ++ r)) place := by
      cases spot with
      | found l n =>
        obtain rfl : l = place := at'
        exact FileSystem.reaches_of_locate found
      | free l =>
        obtain rfl : l = place := at'
        simpa [node₁] using (FileSystem.holds_of_locate _ found).2
    exact ⟨place, bytes, ⟨above, place, before.1, .inl ((kept before.2).symm.trans node)⟩, before.2, reaches, node₁⟩
  · have node₀ := (kept before.2).symm.trans node
    obtain ⟨l₀, n, status₀, off⟩ := detached.links _ _ _ to' before.1 node₀
    obtain ⟨n', again, -⟩ := FileSystem.status_grown aside.extended.toGrown status₀
    obtain ⟨rfl, -⟩ := Prod.mk.inj (Except.ok.inj (status.symm.trans again))
    have file : fs.node? l = some (.file bytes) := (FileSystem.reaches_of_status status).2
    obtain rfl : n = .file bytes :=
      Option.some.inj ((FileSystem.reaches_of_status status₀).2.symm.trans ((kept off).symm.trans file))
    have reaches := (FileSystem.reaches_of_status status).1.grown furnished.grown
    exact ⟨l, bytes, ⟨above, place, before.1, .inr ⟨to', l, node₀, status₀⟩⟩, off, reaches, furnished.kept file⟩

theorem copyRecord_eq_ok {origin : Path} (proper : place.Proper)
    (done : copyRecord origin place.path fs = (.ok (), fs')) :
    ∃ fs₁, fs.makeDirectories (Location.path place.dropLast) = (.ok (), fs₁) ∧ fs₁.copy origin place.path = .ok fs' := by
  rw [copyRecord, Location.parent_path proper] at done
  split at done
  · simp at done
  · next fs₁ made =>
    split at done
    · next fs₂ copied =>
      obtain rfl : fs₂ = fs' := (Prod.mk.inj done).2
      exact ⟨fs₁, made, copied⟩
    · simp at done

theorem copyRecord_found (detached : Detached fs₀ source target) (plain : ∀ l, target <+: l → fs₀.node? l ≠ some .other)
    (midway : Midway fs₀ target fs) (sound : fs.Sound) (proper : source.Proper) (proper' : target.Proper)
    (listed : Listed fs source r above place) (named : Location.Proper r) (ne : r ≠ [])
    (entry : entryAt fs above place (Location.path (source ++ r)) = .ok .record)
    (done : copyRecord (Location.path (source ++ r)) (Location.path (target ++ r)) fs = (.ok (), fs')) :
    ∃ bytes, Finds fs₀ source r bytes ∧ fs'.node? (target ++ r) = some (.file bytes) ∧
      ∀ l, l ≠ target ++ r → fs'.node? l = fs.node? l ∨ fs.node? l = none ∧ fs'.node? l = some .directory := by
  obtain ⟨fs₁, made, copied⟩ := copyRecord_eq_ok (proper'.append named) done
  have inside : target <+: (target ++ r).dropLast := by
    rw [List.dropLast_append_of_ne_nil ne]
    exact List.prefix_append _ _
  have midway₁ := midway.makes sound (proper'.append named).dropLast inside
  have sound₁ := sound.makeDirectories (Location.path (target ++ r).dropLast)
  have furnished := FileSystem.furnished_makeDirectories fs (Location.path (target ++ r).dropLast)
  rw [made] at midway₁ sound₁ furnished
  obtain ⟨_, read⟩ := FileSystem.read_of_copy copied
  obtain ⟨l, n, found, -⟩ := FileSystem.read_eq read
  obtain ⟨t, bytes, finds, off, reaches, node⟩ :=
    found_of_record detached midway.aside proper listed entry furnished sound₁ found
  have there : ∀ spot, fs₁.locate true (Location.path (target ++ r)) = .ok spot → spot.location = target ++ r :=
    fun _ => FileSystem.location_of_locate (proper'.append named) (detached.noLinks_below midway₁.aside r)
  rcases FileSystem.copy_eq sound₁ reaches node copied with ⟨-, k, other⟩ | ⟨k, spot, into, rfl, -, -, -, -, -, nodes⟩
  · obtain rfl : k = target ++ r := there _ other
    have device := midway₁.stocked.kept _ (FileSystem.holds_of_locate _ other)
    exact absurd device (plain _ (List.prefix_append _ _))
  · rw [there _ into] at nodes
    have elsewhere : target ++ r ≠ t := by
      rintro rfl
      exact off.2 (List.prefix_append _ _)
    refine ⟨bytes, finds, by rw [nodes, if_pos rfl, if_neg elsewhere], fun l other => ?_⟩
    rw [nodes, if_neg other]
    exact furnished.node l

theorem mem_below_singleton : q ∈ Below r [name] ↔ r ++ [name] <+: q := by simp [Below]

section Entry

variable {room : Nat} {origin into : Path} {rest : List Name} (detached : Detached fs₀ source target)
  (midway : Midway fs₀ target fs) (stands : Stands fs source target r room above here origin into (name :: rest))

include detached midway stands

theorem Stands.met (entry : entryAt fs above (here ++ [name]) (origin.child name) = .ok e) :
    Meets fs₀ source (r ++ [name]) e :=
  detached.separate.meets midway.aside (stands.meets entry)

theorem mirrors_idle (entry : entryAt fs above (here ++ [name]) (origin.child name) = .ok .idle) :
    Mirrors fs₀ source target (Below r [name]) fs fs [] := by
  have met := stands.met detached midway entry
  refine .idle fun q inside e meets => ?_
  obtain rfl := met.leaf (by simp) (mem_below_singleton.mp inside) meets
  exact met.unique meets

theorem mirrors_record (plain : ∀ l, target <+: l → fs₀.node? l ≠ some .other)
    (entry : entryAt fs above (here ++ [name]) (origin.child name) = .ok .record)
    (done : copyRecord (origin.child name) (into.child name) fs = (.ok (), fs')) :
    Mirrors fs₀ source target (Below r [name]) fs fs' [r ++ [name]] := by
  have met := stands.met detached midway entry
  have listed : Listed fs source (r ++ [name]) above (here ++ [name]) := .mk stands.visits (stands.listed name (by simp))
  have named : Location.Proper (r ++ [name]) := (stands.meets entry).proper stands.sound
  rw [stands.child_origin] at entry done
  rw [stands.child_into] at done
  obtain ⟨bytes, finds, node, others⟩ := copyRecord_found detached plain midway stands.sound stands.proper
    stands.proper' listed named (by simp) entry done
  have single : ∀ q ∈ Below r [name], ∀ e, Meets fs₀ source q e → q = r ++ [name] ∧ e = .record := by
    intro q inside e meets
    obtain rfl := met.leaf (by simp) (mem_below_singleton.mp inside) meets
    exact ⟨rfl, met.unique meets⟩
  exact
    { nodup := List.nodup_singleton _
      mem_iff := by
        intro q
        rw [List.mem_singleton]
        constructor
        · rintro rfl
          exact ⟨mem_below_singleton.mpr (List.prefix_refl _), met⟩
        · rintro ⟨inside, meets⟩
          exact (single q inside _ meets).1
      copies := by
        intro q inside bytes' finds'
        obtain ⟨rfl, -⟩ := single q inside _ finds'.meets
        rw [finds.unique finds', node]
      directories := by
        intro q inside there meets
        simpa using (single q inside _ meets).2
      others := fun l other => others l (other _ (by simp)) }

theorem mirrors_directory (entry : entryAt fs above (here ++ [name]) (origin.child name) = .ok (.directory there))
    (made : fs.makeDirectories (into.child name) = (.ok (), fs')) :
    Mirrors fs₀ source target {r ++ [name]} fs fs' [] := by
  have met := stands.met detached midway entry
  have named : Location.Proper (r ++ [name]) := (stands.meets entry).proper stands.sound
  rw [stands.child_into] at made
  have furnished := FileSystem.furnished_makeDirectories fs (Location.path (target ++ (r ++ [name])))
  rw [made] at furnished
  exact
    { nodup := .nil
      mem_iff := by
        intro q
        refine ⟨fun mem => absurd mem List.not_mem_nil, ?_⟩
        rintro ⟨rfl, meets⟩
        simpa using met.unique meets
      copies := by
        rintro q rfl bytes finds
        simpa using met.unique finds.meets
      directories := by
        rintro q rfl there meets
        exact FileSystem.directory_of_makeDirectories (stands.proper'.append named)
          (detached.noLinks_below midway.aside _) made
      others := fun l _ => furnished.node l }

theorem below_directory (entry : entryAt fs above (here ++ [name]) (origin.child name) = .ok (.directory there))
    (aside : Aside target fs₀ fs') (meets : Meets fs₀ source q e) :
    q ∈ Below r [name] ↔ q ∈ {r ++ [name]} ∪ Below (r ++ [name]) (fs'.list there) := by
  have met := stands.met detached midway entry
  rw [mem_below_singleton, Set.mem_union, Set.mem_singleton_iff]
  constructor
  · rintro ⟨more, rfl⟩
    cases more with
    | nil => exact .inl (List.append_nil _)
    | cons m more =>
      have before : r ++ [name] ++ [m] <+: r ++ [name] ++ m :: more := ⟨more, by simp⟩
      obtain ⟨there', met', listed⟩ := meets.directory (by simp) before
      obtain rfl := Entry.directory.inj (met.unique met')
      exact .inr ⟨m, mem_list_grown aside.extended.toGrown listed, before⟩
  · rintro (rfl | ⟨m, -, before⟩)
    · exact List.prefix_refl _
    · exact (List.prefix_append _ _).trans before

end Entry

theorem Midway.recorded {room : Nat} {origin into : Path} {rest : List Name} (midway : Midway fs₀ target fs)
    (stands : Stands fs source target r room above here origin into (name :: rest))
    (entry : entryAt fs above (here ++ [name]) (origin.child name) = .ok .record)
    (done : copyRecord (origin.child name) (into.child name) fs = (.ok (), fs')) :
    Midway fs₀ target fs' ∧ Stands fs' source target r room above here origin into rest := by
  have named := (stands.meets entry).proper stands.sound
  have after := midway.copies stands.sound (stands.proper'.append named) (by simp) (List.prefix_append _ _)
    (origin.child name)
  rw [stands.child_into] at done
  have next := stands.next (extended_copyRecord (origin.child name) (Location.path (target ++ (r ++ [name]))) fs)
    (sound_copyRecord _ _ stands.sound)
  rw [done] at after next
  exact ⟨after, next⟩

theorem Midway.made {room : Nat} {origin into : Path} {rest : List Name} (midway : Midway fs₀ target fs)
    (stands : Stands fs source target r room above here origin into (name :: rest))
    (entry : entryAt fs above (here ++ [name]) (origin.child name) = .ok (.directory there))
    (made : fs.makeDirectories (into.child name) = (.ok (), fs')) :
    Midway fs₀ target fs' ∧ Extended fs fs' ∧ fs'.Sound := by
  have named := (stands.meets entry).proper stands.sound
  have after := midway.makes stands.sound (stands.proper'.append named) (List.prefix_append _ _)
  rw [stands.child_into] at made
  have extended := (FileSystem.furnished_makeDirectories fs (Location.path (target ++ (r ++ [name])))).extended
  have sound := stands.sound.makeDirectories (Location.path (target ++ (r ++ [name])))
  rw [made] at after extended sound
  exact ⟨after, extended, sound⟩

/-! ## The whole copy -/

theorem Midway.run {room : Nat} {origin into : Path} {names : List Name} (copied : Nat)
    (midway : Midway fs₀ target fs) (stands : Stands fs source target r room above here origin into names) :
    Midway fs₀ target (copyEntries room above here origin into names copied fs).2 := by
  refine (copyEntries_keeps (fun fs r there sound midway meets => ?_) (fun fs r sound midway meets => ?_) r room above here
    origin into names copied stands midway).2.2
  · exact midway.makes sound (stands.proper'.append (meets.proper sound)) (List.prefix_append _ _)
  · exact midway.copies sound (stands.proper'.append (meets.proper sound)) (by simp [meets.ne_nil])
      (List.prefix_append _ _) _

/-- **What copying has done with some names in a directory mirrors what the walk met there**, if it succeeds: one entry
after the other, and a directory before what is in it. -/
theorem mirrors_copyEntries (detached : Detached fs₀ source target)
    (plain : ∀ l, target <+: l → fs₀.node? l ≠ some .other) (r : List Name) (room : Nat) (above : List Location)
    (here : Location) (origin into : Path) (names : List Name) (copied : Nat) (midway : Midway fs₀ target fs)
    (stands : Stands fs source target r room above here origin into names) (nodup : names.Nodup) (n : Nat)
    (fs' : FileSystem) (run : copyEntries room above here origin into names copied fs = (.ok n, fs')) :
    ∃ records, n = copied + records.length ∧ Mirrors fs₀ source target (Below r names) fs fs' records := by
  fun_induction copyEntries room above here origin into names copied fs generalizing r n fs' with
  | case1 =>
    obtain ⟨⟨⟩, rfl⟩ := Prod.mk.inj run
    exact ⟨[], rfl, .idle (by simp [Below])⟩
  | case3 _ _ _ _ _ _ fs name rest origin entry ih =>
    obtain ⟨records, count, mirrors⟩ := ih r midway (stands.next (.refl fs) stands.sound) nodup.of_cons _ _ run
    rw [below_cons]
    exact ⟨[] ++ records, count, (mirrors_idle detached midway stands entry).append mirrors (disjoint_below (by simp_all))⟩
  | case5 _ _ _ _ _ copied fs name rest origin into entry fs₁ done ih =>
    obtain ⟨midway₁, stands₁⟩ := midway.recorded stands entry done
    obtain ⟨records, count, mirrors⟩ := ih r midway₁ stands₁ nodup.of_cons _ _ run
    have first := mirrors_record detached midway stands plain entry done
    rw [below_cons]
    refine ⟨[r ++ [name]] ++ records, ?_, first.append mirrors (disjoint_below (by simp_all))⟩
    simp only [List.length_append, List.length_singleton]
    omega
  | case8 _ _ _ _ _ copied fs name rest origin into there entry fs₁ made fits copied' fs₂ finished ih ih' =>
    obtain ⟨midway₁, extended, sound⟩ := midway.made stands entry made
    have down := stands.down entry extended sound fits
    obtain ⟨inner, count, mirrors⟩ := ih _ midway₁ down (midway₁.distinct.nodup_list there) _ _ finished
    have midway₂ := midway₁.run copied down
    obtain ⟨extended₂, sound₂⟩ := extended_copyEntries copied down
    rw [finished] at midway₂ extended₂ sound₂
    obtain ⟨outer, count', mirrors'⟩ := ih' r midway₂ (stands.next (extended.trans extended₂) sound₂) nodup.of_cons _ _ run
    -- The directory itself and what is in it are all that the walk meets from its name on.
    have first := (mirrors_directory detached midway stands entry made).append mirrors (by simp [Below])
    have whole := first.congr fun q e meets => below_directory detached midway stands entry midway₁.aside meets
    rw [below_cons]
    refine ⟨[] ++ inner ++ outer, ?_, whole.append mirrors' (disjoint_below (by simp_all))⟩
    simp only [List.nil_append, List.length_append]
    omega
  | _ => simp at run

theorem mirrors_furnished (furnished : Furnished fs fs') : Mirrors fs₀ source target ∅ fs fs' [] where
  nodup := .nil
  mem_iff := by simp
  copies := by simp
  directories := by simp
  others := fun l _ => furnished.node l

theorem Meets.mem_below (meets : Meets fs source r e) (grown : Grown fs fs') : r ∈ Below [] (fs'.list source) := by
  obtain ⟨name, rest, rfl⟩ := List.exists_cons_of_ne_nil meets.ne_nil
  have before : [] ++ [name] <+: name :: rest := ⟨rest, rfl⟩
  obtain ⟨above, here, visits, listed⟩ := meets.through before
  obtain ⟨-, rfl⟩ := visits.of_nil
  exact ⟨name, mem_list_grown grown listed, before⟩

/-- **A copy mirrors the source.** If copying succeeds and the output is detached from the walk, the number that it
returns is that of the files that the walk found before; each of them is in the output at the end of the same names,
with the bytes that were found, and so is every directory of the walk. Nothing else has changed but for directories
that were missing. -/
theorem Directory.copyRecords_mirrors (d : Directory) (output : Path) (sound : fs.Sound) (distinct : fs.Distinct)
    (found : d.location fs = .ok source) (output' : outputLocation fs output = .ok target)
    (detached : Detached fs source target) (plain : ∀ l, target <+: l → fs.node? l ≠ some .other) {n : Nat}
    (copied : d.copyRecords output fs = (.ok n, fs')) :
    ∃ records : List (List Name), n = records.length ∧ records.Nodup ∧ (∀ r, r ∈ records ↔ Meets fs source r .record) ∧
      (∀ r ∈ records, ∃ bytes, Finds fs source r bytes ∧ fs'.node? (target ++ r) = some (.file bytes)) ∧
        fs'.node? target = some .directory ∧
          (∀ r there, Meets fs source r (.directory there) → fs'.node? (target ++ r) = some .directory) ∧
            ∀ l, (∀ r ∈ records, l ≠ target ++ r) →
              fs'.node? l = fs.node? l ∨ fs.node? l = none ∧ fs'.node? l = some .directory := by
  have proper := proper_outputLocation sound output'
  have ne : source ≠ [] := by
    rintro rfl
    exact detached.outside.1 List.nil_prefix
  have outside : ¬ source.isPrefixOf target = true := by simpa using detached.outside.1
  simp only [copyRecords, found, output', if_neg outside] at copied
  split at copied
  · simp at copied
  next fs₁ made =>
  have midway : Midway fs target fs := ⟨.refl target fs, .refl fs, distinct⟩
  have midway₁ := midway.makes sound proper (List.prefix_refl _)
  have furnished := FileSystem.furnished_makeDirectories fs target.path
  have sound₁ := sound.makeDirectories target.path
  rw [made] at midway₁ furnished sound₁
  have there := FileSystem.directory_of_makeDirectories proper (fun l n before => detached.noLinks l n (.inl before)) made
  have stands := Stands.begin sound₁ ne (sound.names _ _ (node?_of_location found)) proper
  obtain ⟨records, count, mirrors⟩ := mirrors_copyEntries detached plain _ _ _ _ _ _ _ _ midway₁ stands
    (midway₁.distinct.nodup_list source) _ _ copied
  have grown := (extended_copyEntries 0 stands).1.toGrown
  rw [show copyEntries _ _ _ _ _ _ _ _ = _ from copied] at grown
  -- Making the output mirrors nothing yet, and the names in the source lead to everything that is met.
  have whole := (mirrors_furnished furnished).append mirrors (Set.empty_disjoint _)
  have scope : ∀ {q e}, Meets fs source q e → q ∈ (∅ : Set (List Name)) ∪ Below [] (fs₁.list source) :=
    fun meets => .inr (meets.mem_below furnished.grown)
  refine ⟨[] ++ records, by simpa using count, whole.nodup, fun r => ?_, fun r mem => ?_, grown.directory there,
    fun r there meets => whole.directories r (scope meets) there meets, whole.others⟩
  · rw [whole.mem_iff]
    exact ⟨And.right, fun meets => ⟨scope meets, meets⟩⟩
  · obtain ⟨inside, meets⟩ := (whole.mem_iff r).mp mem
    obtain ⟨bytes, finds⟩ := meets.finds
    exact ⟨bytes, finds, whole.copies r inside bytes finds⟩

/-- The directory `in` with the file `a`, the empty directory `e` and the link `b`, which leads to the file `x/y`. -/
def linked : FileSystem where
  entries := [
    ([[0x69, 0x6e]], .directory),
    ([[0x69, 0x6e], [0x61]], .file [1]),
    ([[0x69, 0x6e], [0x62]], .link ⟨[0x2f, 0x78, 0x2f, 0x79]⟩),
    ([[0x69, 0x6e], [0x65]], .directory),
    ([[0x78]], .directory),
    ([[0x78], [0x79]], .file [2])]
  workingDirectory := []

theorem linked_list : linked.list [[0x69, 0x6e]] = [[0x61], [0x62], [0x65]] ∧ linked.list [[0x69, 0x6e], [0x65]] = [] := by
  constructor <;> cbv

theorem linked_nodes :
    linked.node? [[0x69, 0x6e], [0x61]] = some (.file [1]) ∧
      linked.node? [[0x69, 0x6e], [0x62]] = some (.link ⟨[0x2f, 0x78, 0x2f, 0x79]⟩) ∧
        linked.node? [[0x69, 0x6e], [0x65]] = some .directory := by
  refine ⟨?_, ?_, ?_⟩ <;> cbv

theorem linked_status : linked.status (Location.path [[0x69, 0x6e], [0x62]]) = .ok ([[0x78], [0x79]], .file [2]) := by cbv

theorem linked_visits (visits : Visits linked [[0x69, 0x6e]] r above here) :
    r = [] ∧ here = [[0x69, 0x6e]] ∨ r = [[0x65]] ∧ here = [[0x69, 0x6e], [0x65]] := by
  obtain ⟨file, link, directory⟩ := linked_nodes
  induction visits with
  | start => exact .inl ⟨rfl, rfl⟩
  | into visits listed entry fits ih =>
    rcases ih with ⟨rfl, rfl⟩ | ⟨rfl, rfl⟩
    · rw [linked_list.1] at listed
      simp only [List.mem_cons, List.not_mem_nil, or_false] at listed
      rcases listed with rfl | rfl | rfl <;> rcases directory_of_entryAt entry with ⟨rfl, node⟩ | ⟨to', node, found⟩
      · simp [file] at node
      · simp [file] at node
      · simp [link] at node
      · simpa using linked_status.symm.trans found
      · exact .inr ⟨rfl, rfl⟩
      · simp [directory] at node
    · simp [linked_list.2] at listed

theorem linked_detached : Detached linked [[0x69, 0x6e]] [[0x6f]] where
  outside := ⟨by decide, by decide⟩
  noLinks := by
    intro l n line node
    obtain rfl | mem := FileSystem.eq_directory_or_mem node
    · simp [Node.IsLink]
    · simp only [linked, List.mem_cons, Prod.mk.injEq, List.not_mem_nil, or_false] at mem
      rcases mem with ⟨-, rfl⟩ | ⟨-, rfl⟩ | ⟨rfl, -⟩ | ⟨-, rfl⟩ | ⟨-, rfl⟩ | ⟨-, rfl⟩
      · simp [Node.IsLink]
      · simp [Node.IsLink]
      · simp at line
      · simp [Node.IsLink]
      · simp [Node.IsLink]
      · simp [Node.IsLink]
  links := by
    obtain ⟨file, -, directory⟩ := linked_nodes
    rintro r above place to' ⟨visits, listed⟩ node
    rcases linked_visits visits with ⟨rfl, rfl⟩ | ⟨rfl, rfl⟩
    · rw [linked_list.1] at listed
      simp only [List.mem_cons, List.not_mem_nil, or_false] at listed
      rcases listed with rfl | rfl | rfl
      · simp [file] at node
      · exact ⟨_, _, linked_status, by decide, by decide⟩
      · simp [directory] at node
    · simp [linked_list.2] at listed

theorem copyRecords_mirrors_linked :
    let o := Directory.copyRecords ⟨⟨"records", ⟨[0x2f, 0x69, 0x6e]⟩, none⟩, by decide⟩ ⟨[0x2f, 0x6f]⟩ linked
    o.1 = .ok 2 ∧ ∃ records : List (List Name), 2 = records.length ∧ ∀ r ∈ records, ∃ bytes,
      Finds linked [[0x69, 0x6e]] r bytes ∧ o.2.node? ([[0x6f]] ++ r) = some (.file bytes) := by
  have copied : (Directory.copyRecords ⟨⟨"records", ⟨[0x2f, 0x69, 0x6e]⟩, none⟩, by decide⟩ ⟨[0x2f, 0x6f]⟩ linked).1 =
      .ok 2 := by cbv
  have sound : linked.Sound := FileSystem.sound_of_entries (by decide) (by decide) (by decide)
  have distinct : linked.Distinct := by
    unfold FileSystem.Distinct
    decide
  have plain : ∀ l : Location, [[0x6f]] <+: l → linked.node? l ≠ some .other := by
    intro l _ node
    obtain made | mem := FileSystem.eq_directory_or_mem node
    · simp at made
    · simp [linked] at mem
  obtain ⟨records, count, -, -, copies, -⟩ := Directory.copyRecords_mirrors _ _ sound distinct (by cbv) (by cbv)
    linked_detached plain (Prod.ext copied rfl)
  exact ⟨copied, records, count, copies⟩

/-- The directory `s` in which the link `f` leads to the file `f` of the directory `o`. -/
def entwined : FileSystem where
  entries := [
    ([[0x73]], .directory),
    ([[0x73], [0x66]], .link ⟨[0x2f, 0x6f, 0x2f, 0x66]⟩),
    ([[0x6f]], .directory),
    ([[0x6f], [0x66]], .file [1])]
  workingDirectory := []

theorem entwined_noLinks (l : Location) (n : Node) (line : l <+: [[0x6f]] ∨ [[0x6f]] <+: l)
    (node : entwined.node? l = some n) : ¬ n.IsLink := by
  obtain rfl | mem := FileSystem.eq_directory_or_mem node
  · simp [Node.IsLink]
  · simp only [entwined, List.mem_cons, Prod.mk.injEq, List.not_mem_nil, or_false] at mem
    obtain ⟨-, rfl⟩ | ⟨rfl, -⟩ | ⟨-, rfl⟩ | ⟨-, rfl⟩ := mem
    · simp [Node.IsLink]
    · simp at line
    · simp [Node.IsLink]
    · simp [Node.IsLink]

/-- **A record that is a link to its own copy is lost**: copying it empties it, and succeeds. -/
theorem copyRecords_empties_record :
    let d : Directory := ⟨⟨"records", ⟨[0x2f, 0x73]⟩, none⟩, by decide⟩
    let o := d.copyRecords ⟨[0x2f, 0x6f]⟩ entwined
    d.location entwined = .ok [[0x73]] ∧ outputLocation entwined ⟨[0x2f, 0x6f]⟩ = .ok [[0x6f]] ∧ Off [[0x6f]] [[0x73]] ∧
      (∀ l n, l <+: [[0x6f]] ∨ [[0x6f]] <+: l → entwined.node? l = some n → ¬ n.IsLink) ∧
        Finds entwined [[0x73]] [[0x66]] [1] ∧ o.1 = .ok 1 ∧ o.2.node? [[0x6f], [0x66]] = some (.file []) := by
  have link : entwined.node? [[0x73], [0x66]] = some (.link ⟨[0x2f, 0x6f, 0x2f, 0x66]⟩) := by cbv
  have listed : Listed entwined [[0x73]] [[0x66]] [[[0x73]]] [[0x73], [0x66]] :=
    .mk .start (FileSystem.mem_list_of_node? link)
  have found : entwined.status (Location.path [[0x73], [0x66]]) = .ok ([[0x6f], [0x66]], .file [1]) := by cbv
  exact ⟨by cbv, by cbv, ⟨by decide, by decide⟩, entwined_noLinks, ⟨_, _, listed, .inr ⟨_, _, link, found⟩⟩, by cbv,
    by cbv⟩

end Records

end ModelDepot
