import ModelDepot.Proofs.Json.Copies

/-! # Records are read from sorted values

A record that is written as a value, and the value sorted, is still read by name: every field is found, as the
document of its own sorted value, and nests less deep than the record.
-/

namespace ModelDepot

namespace Json

/-! ## Sorting again -/

mutual

theorem sorted_of_tidy (v : Json) (tidy : v.Tidy) : v.sorted = v := by
  cases v with
  | array items =>
    rw [Tidy] at tidy
    rw [sorted, sortedItems_of_tidyItems items tidy]
  | object ms =>
    rw [Tidy] at tidy
    rw [sorted, sortedMembers_of_tidyMembers ms tidy.2, Members.ofList_of_sorted ms tidy.1]
  | _ => simp [sorted]

theorem sortedItems_of_tidyItems (items : List Json) (tidy : TidyItems items) : sortedItems items = items := by
  cases items with
  | nil => simp [sortedItems]
  | cons v rest =>
    rw [TidyItems] at tidy
    rw [sortedItems, sorted_of_tidy v tidy.1, sortedItems_of_tidyItems rest tidy.2]

theorem sortedMembers_of_tidyMembers (ms : List (String × Json)) (tidy : TidyMembers ms) :
    sortedMembers ms = ms := by
  cases ms with
  | nil => simp [sortedMembers]
  | cons m rest =>
    obtain ⟨k, v⟩ := m
    rw [TidyMembers] at tidy
    rw [sortedMembers, sorted_of_tidy v tidy.1, sortedMembers_of_tidyMembers rest tidy.2]

end

mutual

theorem numbers_sorted {P : Number → Prop} (v : Json) (numbers : v.Numbers P) : v.sorted.Numbers P := by
  cases v with
  | array items =>
    rw [Numbers] at numbers
    rw [sorted, Numbers]
    exact numbersItems_sortedItems items numbers
  | object ms =>
    rw [Numbers] at numbers
    have values := numbersMembers_sortedMembers ms numbers
    rw [numbersMembers_iff] at values
    rw [sorted, Numbers, numbersMembers_iff]
    exact fun m hm => values m (Members.mem_ofList _ m hm)
  | _ => simpa [sorted] using numbers

theorem numbersItems_sortedItems {P : Number → Prop} (items : List Json) (numbers : NumbersItems P items) :
    NumbersItems P (sortedItems items) := by
  cases items with
  | nil => simp [sortedItems, NumbersItems]
  | cons v rest =>
    rw [NumbersItems] at numbers
    rw [sortedItems, NumbersItems]
    exact ⟨numbers_sorted v numbers.1, numbersItems_sortedItems rest numbers.2⟩

theorem numbersMembers_sortedMembers {P : Number → Prop} (ms : List (String × Json)) (numbers : NumbersMembers P ms) :
    NumbersMembers P (sortedMembers ms) := by
  cases ms with
  | nil => simp [sortedMembers, NumbersMembers]
  | cons m rest =>
    obtain ⟨k, v⟩ := m
    rw [NumbersMembers] at numbers
    rw [sortedMembers, NumbersMembers]
    exact ⟨numbers_sorted v numbers.1, numbersMembers_sortedMembers rest numbers.2⟩

end

/-! ## Depth -/

theorem membersDepth_insert (key : String) (value : Json) (ms : Members) (new : key ∉ ms.map Prod.fst) :
    membersDepth (Members.insert key value ms) = max value.depth (membersDepth ms) := by
  induction ms with
  | nil => simp [Members.insert, membersDepth]
  | cons m rest ih =>
    obtain ⟨k, v⟩ := m
    obtain ⟨other, new⟩ : key ≠ k ∧ key ∉ rest.map Prod.fst := by
      rwa [List.map_cons, List.mem_cons, not_or] at new
    by_cases less : key < k
    · rw [Members.insert, if_pos less]
      rfl
    · rw [Members.insert, if_neg less, if_neg other, membersDepth, membersDepth, ih new]
      omega

theorem keys_insert (key : String) (value : Json) (ms : Members) (k : String)
    (h : k ∈ (Members.insert key value ms).map Prod.fst) : k = key ∨ k ∈ ms.map Prod.fst := by
  obtain ⟨m, hm, rfl⟩ := List.mem_map.mp h
  obtain rfl | hm := Members.mem_insert _ _ _ _ hm
  · exact .inl rfl
  · exact .inr (List.mem_map_of_mem hm)

theorem membersDepth_extend_of_new (base more : Members) (distinct : (more.map Prod.fst).Nodup)
    (new : ∀ k ∈ more.map Prod.fst, k ∉ base.map Prod.fst) :
    membersDepth (Members.extend base more) = max (membersDepth base) (membersDepth more) := by
  induction more generalizing base with
  | nil => simp [Members.extend, membersDepth]
  | cons m more ih =>
    obtain ⟨key, value⟩ := m
    obtain ⟨once, distinct⟩ := List.nodup_cons.mp distinct
    have step : Members.extend base ((key, value) :: more) = Members.extend (Members.insert key value base) more := rfl
    have later : ∀ k ∈ more.map Prod.fst, k ∉ (Members.insert key value base).map Prod.fst := by
      intro k hk taken
      obtain rfl | taken := keys_insert key value base k taken
      · exact once hk
      · exact new k (List.mem_cons_of_mem _ hk) taken
    rw [step, ih _ distinct later, membersDepth_insert key value base (new key List.mem_cons_self), membersDepth]
    omega

theorem depth_sorted_object (fields : List String) (ms : Members) (names : ms.map Prod.fst = fields)
    (distinct : fields.Nodup) : (Json.object ms).sorted.depth = membersDepth (sortedMembers ms) + 1 := by
  subst names
  rw [sorted, depth, Members.ofList, membersDepth_extend_of_new _ _ (keys_sortedMembers ms ▸ distinct) (by simp)]
  simp [membersDepth]

theorem depth_of_lookup {ms : Members} {k : String} {v : Json} (h : ms.lookup k = some v) :
    v.depth ≤ membersDepth ms := by
  induction ms with
  | nil => simp at h
  | cons m rest ih =>
    obtain ⟨l, w⟩ := m
    rw [List.lookup_cons] at h
    rw [membersDepth]
    split at h
    · cases h
      omega
    · have := ih h
      omega

/-! ## Reading -/

/-- A record that was opened has the fields of an object, each as its sorted value and with room for it. -/
structure Record.Holds (r : Record) (ms : Members) : Prop where
  part : ∀ k v, ms.lookup k = some v → r.part? k = some v.sorted.toDocument
  room : ∀ k v, ms.lookup k = some v → v.sorted.depth ≤ r.depth

theorem distinctFields_of_nodup (fields : List String) (ms : List (String × Document))
    (distinct : (ms.map Prod.fst).Nodup) : distinctFields fields ms = true := by
  refine List.all_eq_true.mpr fun f _ => decide_eq_true ?_
  have counted : (ms.filter (·.1 == f)).length = (ms.map Prod.fst).count f := by
    rw [List.count, List.countP_map, List.countP_eq_length_filter]
    rfl
  rw [counted]
  exact List.nodup_iff_count.mp distinct f

/-- **A record is opened again** after it was written and sorted. -/
theorem record_sorted (fields : List String) (ms : Members) (names : ms.map Prod.fst = fields)
    (distinct : fields.Nodup) (depth : Nat) (h : (Json.object ms).sorted.depth ≤ depth) :
    ∃ r, record fields depth (Json.object ms).sorted.toDocument = some r ∧ r.Holds ms := by
  subst names
  have found (k : String) (v : Json) (member : ms.lookup k = some v) :
      (Members.ofList (sortedMembers ms)).lookup k = some v.sorted := by
    rw [Members.ofList, Members.lookup_extend _ _ (keys_sortedMembers ms ▸ distinct), sortedMembers_eq, lookup_map_values,
      member]
    rfl
  rw [sorted] at h ⊢
  obtain ⟨below, rfl, within⟩ := depth_le_of_object h
  have once : ((Members.ofList (sortedMembers ms)).map Prod.fst).Nodup :=
    (List.pairwise_map.mpr (Members.sorted_ofList (sortedMembers ms))).imp fun less => String.ne_of_lt less
  refine ⟨⟨ms.map Prod.fst, .named (membersToDocuments (Members.ofList (sortedMembers ms))), below⟩, ?_, ?_, ?_⟩
  · rw [toDocument, record, if_pos (distinctFields_of_nodup _ _ (keys_membersToDocuments _ ▸ once))]
  · intro k v member
    rw [Record.part?]
    simp only [membersToDocuments_eq, lookup_map_values, found k v member, Option.map_some]
  · intro k v member
    exact Nat.le_trans (depth_of_lookup (found k v member)) within

namespace Record.Holds

variable {α : Type} {r : Record} {ms : Members}

theorem required (holds : r.Holds ms) (k : String) {v : Json} (member : ms.lookup k = some v) {item : Decoder α}
    {a : α} (read : ∀ depth, v.sorted.depth ≤ depth → item depth v.sorted.toDocument = some a) :
    r.required k item = some a := by
  rw [Record.required, holds.part k v member, Option.bind_some]
  exact read r.depth (holds.room k v member)

theorem withDefault (holds : r.Holds ms) (k : String) {v : Json} (member : ms.lookup k = some v) {item : Decoder α}
    {default a : α} (read : ∀ depth, v.sorted.depth ≤ depth → item depth v.sorted.toDocument = some a) :
    r.withDefault k default item = some a := by
  rw [Record.withDefault, holds.part k v member]
  exact read r.depth (holds.room k v member)

end Record.Holds

/-! ## Fields -/

theorem read_text (s : String) (depth : Nat) (_ : (Json.string s).sorted.depth ≤ depth) :
    Decoder.text depth (Json.string s).sorted.toDocument = some s := by
  simp [sorted, toDocument, Decoder.text]

theorem read_ofText? (s : Option String) (depth : Nat) (_ : (Json.ofText? s).sorted.depth ≤ depth) :
    Decoder.nullable Decoder.text depth (Json.ofText? s).sorted.toDocument = some s := by
  cases s <;> simp [ofText?, sorted, toDocument, Decoder.nullable, Decoder.text]

theorem depth_sorted_ofText? (s : Option String) : (Json.ofText? s).sorted.depth = 0 := by
  cases s <;> simp [ofText?, sorted, depth]

theorem numbers_ofText? {P : Number → Prop} (s : Option String) : (Json.ofText? s).Numbers P := by
  cases s <;> simp [ofText?, Numbers]

theorem read_free (v : Option Json) (tidy : ∀ w, v = some w → w.Tidy ∧ w ≠ .null) (depth : Nat)
    (h : (v.getD .null).sorted.depth ≤ depth) :
    Decoder.nullable Decoder.free depth (v.getD .null).sorted.toDocument = some v := by
  cases v with
  | none => simp [sorted, toDocument, Decoder.nullable]
  | some w =>
    obtain ⟨tidy, value⟩ := tidy w rfl
    rw [Option.getD_some, sorted_of_tidy w tidy] at h ⊢
    have read := toJson?_toDocument w tidy depth h
    cases w <;> first | exact absurd rfl value | exact congrArg (Option.map some) read

end Json

end ModelDepot
