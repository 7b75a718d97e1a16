import ModelDepot.Proofs.Json.Values

/-! # Values that were written and read again

Reading a tidy value again may change its numbers, but not its texts and not which members its objects
have. A value that is read again does not nest too deep.
-/

namespace ModelDepot

namespace Json

/-! ## Tidy values -/

theorem tidyMembers_iff (ms : List (String × Json)) : TidyMembers ms ↔ ∀ m ∈ ms, m.2.Tidy := by
  induction ms with
  | nil => simp [TidyMembers]
  | cons m rest ih => simp [TidyMembers, ih]

theorem numbersMembers_iff (P : Number → Prop) (ms : Members) : NumbersMembers P ms ↔ ∀ m ∈ ms, m.2.Numbers P := by
  induction ms with
  | nil => simp [NumbersMembers]
  | cons m rest ih => simp [NumbersMembers, ih]

theorem tidy_ofList (ms : List (String × Json)) (h : TidyMembers ms) : (Json.object (Members.ofList ms)).Tidy := by
  rw [Tidy]
  refine ⟨Members.sorted_ofList ms, (tidyMembers_iff _).mpr fun m hm => ?_⟩
  exact (tidyMembers_iff ms).mp h m (Members.mem_ofList ms m hm)

mutual

theorem tidy_sorted (v : Json) : v.sorted.Tidy := by
  cases v with
  | array items =>
    rw [sorted, Tidy]
    exact tidyItems_sortedItems items
  | object ms =>
    rw [sorted]
    exact tidy_ofList _ (tidyMembers_sortedMembers ms)
  | _ => simp [sorted, Tidy]

theorem tidyItems_sortedItems (items : List Json) : TidyItems (sortedItems items) := by
  cases items with
  | nil => simp [sortedItems, TidyItems]
  | cons v rest =>
    rw [sortedItems, TidyItems]
    exact ⟨tidy_sorted v, tidyItems_sortedItems rest⟩

theorem tidyMembers_sortedMembers (ms : List (String × Json)) : TidyMembers (sortedMembers ms) := by
  cases ms with
  | nil => simp [sortedMembers, TidyMembers]
  | cons m rest =>
    obtain ⟨k, v⟩ := m
    rw [sortedMembers, TidyMembers]
    exact ⟨tidy_sorted v, tidyMembers_sortedMembers rest⟩

end

mutual

theorem tidy_of_toJson? (depth : Nat) (d : Document) (v : Json) (h : Document.toJson? depth d = some v) :
    v.Tidy := by
  cases d with
  | array items =>
    cases depth with
    | zero => simp [Document.toJson?] at h
    | succ depth =>
      rw [Document.toJson?] at h
      obtain ⟨vs, hvs, rfl⟩ := Option.map_eq_some_iff.mp h
      rw [Tidy]
      exact tidyItems_of_itemsToJson? depth items vs hvs
  | object ms =>
    cases depth with
    | zero => simp [Document.toJson?] at h
    | succ depth =>
      rw [Document.toJson?] at h
      obtain ⟨vs, hvs, rfl⟩ := Option.map_eq_some_iff.mp h
      exact tidy_ofList vs (tidyMembers_of_membersToJson? depth ms vs hvs)
  | unreadable => simp [Document.toJson?] at h
  | _ =>
    simp only [Document.toJson?, Option.some.injEq] at h
    subst h
    simp [Tidy]

theorem tidyItems_of_itemsToJson? (depth : Nat) (items : List Document) (vs : List Json)
    (h : Document.itemsToJson? depth items = some vs) : TidyItems vs := by
  cases items with
  | nil =>
    simp only [Document.itemsToJson?, Option.some.injEq] at h
    subst h
    simp [TidyItems]
  | cons d rest =>
    rw [Document.itemsToJson?] at h
    split at h
    · next v ws hv hws =>
      rw [← Option.some.inj h, TidyItems]
      exact ⟨tidy_of_toJson? depth d v hv, tidyItems_of_itemsToJson? depth rest ws hws⟩
    · simp at h

theorem tidyMembers_of_membersToJson? (depth : Nat) (ms : List (String × Document))
    (vs : List (String × Json)) (h : Document.membersToJson? depth ms = some vs) : TidyMembers vs := by
  cases ms with
  | nil =>
    simp only [Document.membersToJson?, Option.some.injEq] at h
    subst h
    simp [TidyMembers]
  | cons m rest =>
    obtain ⟨k, d⟩ := m
    rw [Document.membersToJson?] at h
    split at h
    · next v ws hv hws =>
      rw [← Option.some.inj h, TidyMembers]
      exact ⟨tidy_of_toJson? depth d v hv, tidyMembers_of_membersToJson? depth rest ws hws⟩
    · simp at h

end

/-! ## Depth -/

theorem membersDepth_le_iff (ms : Members) (d : Nat) : membersDepth ms ≤ d ↔ ∀ m ∈ ms, m.2.depth ≤ d := by
  induction ms with
  | nil => simp [membersDepth]
  | cons m rest ih => rw [membersDepth, Nat.max_le, ih, List.forall_mem_cons]

theorem membersDepth_extend (base more : Members) {d : Nat} (hb : membersDepth base ≤ d) (hm : membersDepth more ≤ d) :
    membersDepth (Members.extend base more) ≤ d := by
  rw [membersDepth_le_iff] at *
  exact fun m mem => (Members.mem_extend _ _ m mem).elim (hb m) (hm m)

namespace Document

mutual

theorem depth_of_toJson?_le (depth : Nat) (d : Document) (v : Json) (h : toJson? depth d = some v) :
    v.depth ≤ depth := by
  cases d with
  | array items =>
    cases depth with
    | zero => simp [toJson?] at h
    | succ depth =>
      rw [toJson?] at h
      obtain ⟨vs, hvs, rfl⟩ := Option.map_eq_some_iff.mp h
      rw [Json.depth]
      exact Nat.succ_le_succ (depth_of_itemsToJson?_le depth items vs hvs)
  | object ms =>
    cases depth with
    | zero => simp [toJson?] at h
    | succ depth =>
      rw [toJson?] at h
      obtain ⟨vs, hvs, rfl⟩ := Option.map_eq_some_iff.mp h
      rw [Function.comp_apply, Json.depth]
      exact Nat.succ_le_succ (membersDepth_extend [] vs (by simp [membersDepth])
        (depth_of_membersToJson?_le depth ms vs hvs))
  | unreadable => simp [toJson?] at h
  | _ =>
    simp only [toJson?, Option.some.injEq] at h
    subst h
    simp [Json.depth]

theorem depth_of_itemsToJson?_le (depth : Nat) (items : List Document) (vs : List Json)
    (h : itemsToJson? depth items = some vs) : itemsDepth vs ≤ depth := by
  cases items with
  | nil =>
    simp only [itemsToJson?, Option.some.injEq] at h
    simp [← h, itemsDepth]
  | cons d rest =>
    rw [itemsToJson?] at h
    split at h
    · next v ws hv hws =>
      rw [← Option.some.inj h, itemsDepth]
      exact Nat.max_le.mpr ⟨depth_of_toJson?_le depth d v hv, depth_of_itemsToJson?_le depth rest ws hws⟩
    · simp at h

theorem depth_of_membersToJson?_le (depth : Nat) (ms : List (String × Document)) (vs : Members)
    (h : membersToJson? depth ms = some vs) : membersDepth vs ≤ depth := by
  cases ms with
  | nil =>
    simp only [membersToJson?, Option.some.injEq] at h
    simp [← h, membersDepth]
  | cons m rest =>
    obtain ⟨k, d⟩ := m
    rw [membersToJson?] at h
    split at h
    · next v ws hv hws =>
      rw [← Option.some.inj h, membersDepth]
      exact Nat.max_le.mpr ⟨depth_of_toJson?_le depth d v hv, depth_of_membersToJson?_le depth rest ws hws⟩
    · simp at h

end

mutual

theorem toJson?_mono {depth depth' : Nat} (le : depth ≤ depth') (d : Document) (v : Json)
    (h : toJson? depth d = some v) : toJson? depth' d = some v := by
  cases d with
  | array items =>
    cases depth with
    | zero => simp [toJson?] at h
    | succ depth =>
      obtain ⟨depth', rfl⟩ : ∃ more, depth' = more + 1 := ⟨depth' - 1, by omega⟩
      rw [toJson?] at h ⊢
      obtain ⟨vs, hvs, rfl⟩ := Option.map_eq_some_iff.mp h
      rw [itemsToJson?_mono (Nat.le_of_succ_le_succ le) items vs hvs]
      rfl
  | object ms =>
    cases depth with
    | zero => simp [toJson?] at h
    | succ depth =>
      obtain ⟨depth', rfl⟩ : ∃ more, depth' = more + 1 := ⟨depth' - 1, by omega⟩
      rw [toJson?] at h ⊢
      obtain ⟨vs, hvs, rfl⟩ := Option.map_eq_some_iff.mp h
      rw [membersToJson?_mono (Nat.le_of_succ_le_succ le) ms vs hvs]
      rfl
  | unreadable => simp [toJson?] at h
  | _ => simpa only [toJson?] using h

theorem itemsToJson?_mono {depth depth' : Nat} (le : depth ≤ depth') (items : List Document) (vs : List Json)
    (h : itemsToJson? depth items = some vs) : itemsToJson? depth' items = some vs := by
  cases items with
  | nil => exact h
  | cons d rest =>
    rw [itemsToJson?] at h ⊢
    split at h
    · next v ws hv hws => rw [toJson?_mono le d v hv, itemsToJson?_mono le rest ws hws, ← h]
    · simp at h

theorem membersToJson?_mono {depth depth' : Nat} (le : depth ≤ depth') (ms : List (String × Document)) (vs : Members)
    (h : membersToJson? depth ms = some vs) : membersToJson? depth' ms = some vs := by
  cases ms with
  | nil => exact h
  | cons m rest =>
    obtain ⟨k, d⟩ := m
    rw [membersToJson?] at h ⊢
    split at h
    · next v ws hv hws => rw [toJson?_mono le d v hv, membersToJson?_mono le rest ws hws, ← h]
    · simp at h

end

end Document

mutual

theorem depth_le_of_toJson? (depth : Nat) (v w : Json) (h : Document.toJson? depth v.spelled = some w) :
    v.depth ≤ depth := by
  cases v with
  | array items =>
    cases depth with
    | zero => simp [spelled, Document.toJson?] at h
    | succ depth =>
      rw [spelled, Document.toJson?] at h
      obtain ⟨vs, hvs, -⟩ := Option.map_eq_some_iff.mp h
      rw [Json.depth]
      exact Nat.succ_le_succ (itemsDepth_le_of_itemsToJson? depth items vs hvs)
  | object ms =>
    cases depth with
    | zero => simp [spelled, Document.toJson?] at h
    | succ depth =>
      rw [spelled, Document.toJson?] at h
      obtain ⟨vs, hvs, -⟩ := Option.map_eq_some_iff.mp h
      rw [Json.depth]
      exact Nat.succ_le_succ (membersDepth_le_of_membersToJson? depth ms vs hvs)
  | _ => simp [Json.depth]

theorem itemsDepth_le_of_itemsToJson? (depth : Nat) (items vs : List Json)
    (h : Document.itemsToJson? depth (spelledItems items) = some vs) : itemsDepth items ≤ depth := by
  cases items with
  | nil => simp [itemsDepth]
  | cons v rest =>
    rw [spelledItems, Document.itemsToJson?] at h
    split at h
    · next w ws hw hws =>
      rw [itemsDepth]
      exact Nat.max_le.mpr ⟨depth_le_of_toJson? depth v w hw, itemsDepth_le_of_itemsToJson? depth rest ws hws⟩
    · simp at h

theorem membersDepth_le_of_membersToJson? (depth : Nat) (ms vs : List (String × Json))
    (h : Document.membersToJson? depth (spelledMembers ms) = some vs) : membersDepth ms ≤ depth := by
  cases ms with
  | nil => simp [membersDepth]
  | cons m rest =>
    obtain ⟨k, v⟩ := m
    rw [spelledMembers, Document.membersToJson?] at h
    split at h
    · next w ws hw hws =>
      rw [membersDepth]
      exact Nat.max_le.mpr ⟨depth_le_of_toJson? depth v w hw, membersDepth_le_of_membersToJson? depth rest ws hws⟩
    · simp at h

end

/-! ## Members -/

/-- The value of a member, if the value is an object that has it. -/
def member? (v : Json) (key : String) : Option Json :=
  match v with
  | .object ms => ms.lookup key
  | _ => none

theorem lookup_map_values {β : Type} (f : Json → β) (ms : List (String × Json)) (k : String) :
    (ms.map fun m => (m.1, f m.2)).lookup k = (ms.lookup k).map f := by
  induction ms with
  | nil => rfl
  | cons m rest ih =>
    rw [List.map_cons, List.lookup_cons, List.lookup_cons, ih]
    cases k == m.1 <;> rfl

theorem sortedMembers_eq (ms : List (String × Json)) : sortedMembers ms = ms.map fun m => (m.1, m.2.sorted) := by
  induction ms with
  | nil => rfl
  | cons m rest ih => rw [sortedMembers, List.map_cons, ih]

theorem membersToDocuments_eq (ms : List (String × Json)) :
    membersToDocuments ms = ms.map fun m => (m.1, m.2.toDocument) := by
  induction ms with
  | nil => rfl
  | cons m rest ih => rw [membersToDocuments, List.map_cons, ih]

theorem keys_sortedMembers (ms : List (String × Json)) : (sortedMembers ms).map Prod.fst = ms.map Prod.fst := by
  rw [sortedMembers_eq, List.map_map]
  rfl

theorem keys_membersToDocuments (ms : List (String × Json)) :
    (membersToDocuments ms).map Prod.fst = ms.map Prod.fst := by
  rw [membersToDocuments_eq, List.map_map]
  rfl

theorem member?_sorted (fields : List String) (ms : List (String × Json)) (names : ms.map Prod.fst = fields)
    (distinct : fields.Nodup) (k : String) : (Json.object ms).sorted.member? k = (ms.lookup k).map sorted := by
  subst names
  rw [sorted, member?, Members.ofList, Members.lookup_extend _ _ (keys_sortedMembers ms ▸ distinct), sortedMembers_eq,
    lookup_map_values]
  simp

theorem tidy_of_member? {v x : Json} (tidy : v.Tidy) {k : String} (member : v.member? k = some x) :
    x.Tidy := by
  cases v with
  | object ms =>
    rw [Tidy] at tidy
    obtain ⟨before, after, rfl, -⟩ := List.lookup_eq_some_iff.mp member
    exact (tidyMembers_iff _).mp tidy.2 (k, x) (by simp)
  | _ => simp [member?] at member

/-- A value that was written and read again any number of times. -/
inductive Copied : Json → Json → Prop where
  | same (v : Json) : Copied v v
  | again {v w x : Json} {depth : Nat} (copied : Copied v w)
      (read : Document.toJson? depth w.spelled = some x) : Copied v x

theorem lookup_membersToJson? (depth : Nat) (ms : List (String × Json)) (vs : List (String × Json))
    (h : Document.membersToJson? depth (spelledMembers ms) = some vs) (key : String) {v : Json}
    (member : ms.lookup key = some v) :
    ∃ w, Document.toJson? depth v.spelled = some w ∧ vs.lookup key = some w := by
  induction ms generalizing vs with
  | nil => simp at member
  | cons m rest ih =>
    obtain ⟨k, u⟩ := m
    rw [spelledMembers, Document.membersToJson?] at h
    split at h
    · next w ws hw hws =>
      rw [← Option.some.inj h, List.lookup_cons]
      rw [List.lookup_cons] at member
      cases hk : key == k with
      | true =>
        simp only [hk, Option.some.injEq] at member
        subst member
        exact ⟨w, hw, rfl⟩
      | false =>
        simp only [hk] at member
        exact ih ws hws member
    · simp at h

theorem member?_of_read {v w : Json} (tidy : v.Tidy) {depth : Nat}
    (read : Document.toJson? depth v.spelled = some w) (key : String) {x : Json}
    (member : v.member? key = some x) :
    ∃ y below, w.member? key = some y ∧ Document.toJson? below x.spelled = some y := by
  cases v with
  | object ms =>
    cases depth with
    | zero => simp [spelled, Document.toJson?] at read
    | succ below =>
      rw [spelled, Document.toJson?] at read
      obtain ⟨vs, hvs, rfl⟩ := Option.map_eq_some_iff.mp read
      obtain ⟨y, again, found⟩ := lookup_membersToJson? below ms vs hvs key member
      have keys : vs.map Prod.fst = ms.map Prod.fst :=
        (keys_membersToJson? below _ vs hvs).trans (keys_spelledMembers ms)
      have sorted : Members.Sorted vs := by
        rw [Tidy] at tidy
        have : (ms.map Prod.fst).Pairwise (· < ·) := List.pairwise_map.mpr tidy.1
        rw [← keys] at this
        exact List.pairwise_map.mp this
      refine ⟨y, below, ?_, again⟩
      rw [Function.comp_apply, Members.ofList_of_sorted vs sorted]
      exact found
  | _ => simp [member?] at member

namespace Copied

variable {v w x : Json}

theorem tidy (copied : Copied v w) (h : v.Tidy) : w.Tidy := by
  induction copied with
  | same => exact h
  | again _ read _ => exact tidy_of_toJson? _ _ _ read

theorem member? (copied : Copied v w) (tidy : v.Tidy) (key : String) (member : v.member? key = some x) :
    ∃ y, w.member? key = some y ∧ Copied x y := by
  induction copied with
  | same => exact ⟨x, member, .same x⟩
  | again copied read ih =>
    obtain ⟨y, found, part⟩ := ih
    obtain ⟨z, _, found', again⟩ := member?_of_read (copied.tidy tidy) read key found
    exact ⟨z, found', part.again again⟩

theorem eq_of_still (still : ∀ depth, Document.toJson? depth v.spelled = some v) (copied : Copied v w) :
    w = v := by
  induction copied with
  | same => rfl
  | again _ read ih =>
    rw [ih, still] at read
    exact (Option.some.inj read).symm

theorem eq_string {s : String} (copied : Copied (.string s) w) : w = .string s :=
  copied.eq_of_still fun _ => by simp [Json.spelled, Document.toJson?]

theorem eq_ofText? {s : Option String} (copied : Copied (.ofText? s) w) : w = .ofText? s :=
  copied.eq_of_still fun _ => by cases s <;> simp [Json.ofText?, Json.spelled, Document.toJson?]

end Copied

end Json

end ModelDepot
