import ModelDepot.Json.Decode
import ModelDepot.Proofs.Json.Members
import ModelDepot.Proofs.Json.Reading

/-! # Values that are read back

A free-form value is tidy: the members of its objects are sorted. A tidy value whose numbers are read
back is read back itself, if it does not nest too deep.
-/

namespace ModelDepot

namespace Json

/-! ## Free-form values -/

mutual

/-- The members of every object are sorted by key. -/
def Tidy : Json → Prop
  | .array items => TidyItems items
  | .object ms => Members.Sorted ms ∧ TidyMembers ms
  | _ => True

def TidyItems : List Json → Prop
  | [] => True
  | v :: rest => v.Tidy ∧ TidyItems rest

def TidyMembers : List (String × Json) → Prop
  | [] => True
  | (_, v) :: rest => v.Tidy ∧ TidyMembers rest

end

mutual

/-- Every number in the value has a property. -/
def Numbers (P : Number → Prop) : Json → Prop
  | .number n => P n
  | .array items => NumbersItems P items
  | .object ms => NumbersMembers P ms
  | _ => True

def NumbersItems (P : Number → Prop) : List Json → Prop
  | [] => True
  | v :: rest => v.Numbers P ∧ NumbersItems P rest

def NumbersMembers (P : Number → Prop) : List (String × Json) → Prop
  | [] => True
  | (_, v) :: rest => v.Numbers P ∧ NumbersMembers P rest

end

/-- A number is written as a text that it is read back from. -/
def Number.Rereads (n : Number) : Prop := n.spelled = .number n

/-! ## Reading back -/

theorem membersDepth_append (ms more : Members) :
    membersDepth (ms ++ more) = max (membersDepth ms) (membersDepth more) := by
  induction ms with
  | nil => simp [membersDepth]
  | cons m rest ih =>
    obtain ⟨k, v⟩ := m
    simp only [List.cons_append, membersDepth, ih]
    omega

theorem depth_le_itemsDepth (items : List Json) (v : Json) (h : v ∈ items) : v.depth ≤ itemsDepth items := by
  induction items with
  | nil => simp at h
  | cons w rest ih =>
    rw [itemsDepth]
    obtain rfl | h := List.mem_cons.mp h
    · omega
    · have := ih h
      omega

theorem depth_le_of_array {items : List Json} {depth : Nat} (h : (Json.array items).depth ≤ depth) :
    ∃ below, depth = below + 1 ∧ itemsDepth items ≤ below := by
  rw [Json.depth] at h
  exact ⟨depth - 1, by omega, by omega⟩

theorem depth_le_of_object {ms : List (String × Json)} {depth : Nat} (h : (Json.object ms).depth ≤ depth) :
    ∃ below, depth = below + 1 ∧ membersDepth ms ≤ below := by
  rw [Json.depth] at h
  exact ⟨depth - 1, by omega, by omega⟩

mutual

theorem spelled_eq_toDocument (v : Json) (numbers : v.Numbers Number.Rereads) : v.spelled = v.toDocument := by
  cases v with
  | number n =>
    rw [Numbers] at numbers
    rw [spelled, toDocument, numbers]
  | array items =>
    rw [Numbers] at numbers
    rw [spelled, toDocument, spelledItems_eq_itemsToDocuments items numbers]
  | object ms =>
    rw [Numbers] at numbers
    rw [spelled, toDocument, spelledMembers_eq_membersToDocuments ms numbers]
  | _ => simp [spelled, toDocument]

theorem spelledItems_eq_itemsToDocuments (items : List Json) (numbers : NumbersItems Number.Rereads items) :
    spelledItems items = itemsToDocuments items := by
  cases items with
  | nil => simp [spelledItems, itemsToDocuments]
  | cons v rest =>
    rw [NumbersItems] at numbers
    rw [spelledItems, itemsToDocuments, spelled_eq_toDocument v numbers.1,
      spelledItems_eq_itemsToDocuments rest numbers.2]

theorem spelledMembers_eq_membersToDocuments (ms : List (String × Json))
    (numbers : NumbersMembers Number.Rereads ms) : spelledMembers ms = membersToDocuments ms := by
  cases ms with
  | nil => simp [spelledMembers, membersToDocuments]
  | cons m rest =>
    obtain ⟨k, v⟩ := m
    rw [NumbersMembers] at numbers
    rw [spelledMembers, membersToDocuments, spelled_eq_toDocument v numbers.1,
      spelledMembers_eq_membersToDocuments rest numbers.2]

end

mutual

theorem toJson?_toDocument (v : Json) (tidy : v.Tidy) (depth : Nat) (h : v.depth ≤ depth) :
    Document.toJson? depth v.toDocument = some v := by
  cases v with
  | array items =>
    obtain ⟨below, rfl, within⟩ := depth_le_of_array h
    rw [Tidy] at tidy
    rw [toDocument, Document.toJson?, itemsToJson?_itemsToDocuments items tidy below within]
    rfl
  | object ms =>
    obtain ⟨below, rfl, within⟩ := depth_le_of_object h
    rw [Tidy] at tidy
    rw [toDocument, Document.toJson?, membersToJson?_membersToDocuments ms tidy.2 below within, Option.map_some,
      Function.comp_apply, Members.ofList_of_sorted ms tidy.1]
  | _ => simp [toDocument, Document.toJson?]

theorem itemsToJson?_itemsToDocuments (items : List Json) (tidy : TidyItems items) (depth : Nat)
    (h : itemsDepth items ≤ depth) : Document.itemsToJson? depth (itemsToDocuments items) = some items := by
  cases items with
  | nil => simp [itemsToDocuments, Document.itemsToJson?]
  | cons v rest =>
    rw [TidyItems] at tidy
    rw [itemsDepth] at h
    rw [itemsToDocuments, Document.itemsToJson?, toJson?_toDocument v tidy.1 depth (by omega),
      itemsToJson?_itemsToDocuments rest tidy.2 depth (by omega)]

theorem membersToJson?_membersToDocuments (ms : List (String × Json)) (tidy : TidyMembers ms) (depth : Nat)
    (h : membersDepth ms ≤ depth) : Document.membersToJson? depth (membersToDocuments ms) = some ms := by
  cases ms with
  | nil => simp [membersToDocuments, Document.membersToJson?]
  | cons m rest =>
    obtain ⟨k, v⟩ := m
    rw [TidyMembers] at tidy
    rw [membersDepth] at h
    rw [membersToDocuments, Document.membersToJson?, toJson?_toDocument v tidy.1 depth (by omega),
      membersToJson?_membersToDocuments rest tidy.2 depth (by omega)]

end

/-- **A tidy value is read back** if its numbers are. -/
theorem toJson?_spelled (v : Json) (tidy : v.Tidy) (numbers : v.Numbers Number.Rereads) (depth : Nat)
    (h : v.depth ≤ depth) : Document.toJson? depth v.spelled = some v := by
  rw [spelled_eq_toDocument v numbers]
  exact toJson?_toDocument v tidy depth h

theorem membersToJson?_spelledMembers (ms : List (String × Json)) (tidy : TidyMembers ms)
    (numbers : NumbersMembers Number.Rereads ms) (depth : Nat) (h : membersDepth ms ≤ depth) :
    Document.membersToJson? depth (spelledMembers ms) = some ms := by
  rw [spelledMembers_eq_membersToDocuments ms numbers]
  exact membersToJson?_membersToDocuments ms tidy depth h

/-! ## Records -/

/-- No member has one of the names. -/
def NoneOf (fields : List String) (ms : Members) : Prop := ∀ m ∈ ms, m.1 ∉ fields

/-- Members that are read back as a free-form object: their keys sorted, their numbers read back. -/
structure Members.ReadBack (ms : Members) : Prop where
  tidy : (Json.object ms).Tidy
  numbers : (Json.object ms).Numbers Number.Rereads

theorem Members.ReadBack.nil : Members.ReadBack [] where
  tidy := by simp [Tidy, TidyMembers, Members.Sorted]
  numbers := by simp [Numbers, NumbersMembers]

/-- Members that a record keeps beside its fields: they have other names and are read back. -/
structure Members.KeptBeside (ms : Members) (fields : List String) : Prop extends ms.ReadBack where
  unnamed : NoneOf fields ms

theorem keys_spelledMembers (ms : Members) : (spelledMembers ms).map Prod.fst = ms.map Prod.fst := by
  rw [spelledMembers_eq]
  simp

theorem spelledMembers_append (ms more : Members) :
    spelledMembers (ms ++ more) = spelledMembers ms ++ spelledMembers more := by
  simp only [spelledMembers_eq, List.map_append]

theorem distinctFields_spelledMembers (named others : Members) (distinct : (named.map Prod.fst).Nodup)
    (unnamed : NoneOf (named.map Prod.fst) others) :
    distinctFields (named.map Prod.fst) (spelledMembers (named ++ others)) = true := by
  refine List.all_eq_true.mpr fun f hf => decide_eq_true ?_
  have once : (named.map Prod.fst).count f ≤ 1 := List.nodup_iff_count.mp distinct f
  have nowhere : (others.map Prod.fst).count f = 0 := by
    refine List.count_eq_zero.mpr fun mem => ?_
    obtain ⟨m, hm, rfl⟩ := List.mem_map.mp mem
    exact unnamed m hm hf
  have counted : ((spelledMembers (named ++ others)).filter (·.1 == f)).length =
      ((named ++ others).map Prod.fst).count f := by
    rw [← keys_spelledMembers, List.count, List.countP_map, List.countP_eq_length_filter]
    rfl
  rw [counted, List.map_append, List.count_append]
  omega

theorem filter_spelledMembers (named others : Members) (unnamed : NoneOf (named.map Prod.fst) others) :
    (spelledMembers (named ++ others)).filter (fun m => ! (named.map Prod.fst).contains m.1) =
      spelledMembers others := by
  have dropped : (spelledMembers named).filter (fun m => ! (named.map Prod.fst).contains m.1) = [] := by
    refine List.filter_eq_nil_iff.mpr fun m hm => ?_
    have : m.1 ∈ named.map Prod.fst := keys_spelledMembers named ▸ List.mem_map_of_mem hm
    simp [this]
  have kept : (spelledMembers others).filter (fun m => ! (named.map Prod.fst).contains m.1) =
      spelledMembers others := by
    refine List.filter_eq_self.mpr fun m hm => ?_
    have : m.1 ∈ others.map Prod.fst := keys_spelledMembers others ▸ List.mem_map_of_mem hm
    obtain ⟨n, hn, hk⟩ := List.mem_map.mp this
    have := unnamed n hn
    rw [hk] at this
    simpa [List.contains_iff_mem] using this
  rw [spelledMembers_append, List.filter_append, dropped, kept, List.nil_append]

/-- **A record that keeps unknown members is read back**: its fields by name, and the others as they
were. -/
theorem openRecord_spelled (fields : List String) (named others : Members) (names : named.map Prod.fst = fields)
    (distinct : fields.Nodup) (kept : others.KeptBeside fields) (depth : Nat)
    (h : membersDepth others ≤ depth) :
    openRecord fields (depth + 1) (Json.object (named ++ others)).spelled =
      some (⟨fields, .named (spelledMembers (named ++ others)), depth⟩, others) := by
  subst names
  have tidy : Members.Sorted others ∧ TidyMembers others := by simpa only [Tidy] using kept.tidy
  have numbers : NumbersMembers Number.Rereads others := by simpa only [Numbers] using kept.numbers
  rw [spelled, openRecord, if_pos (distinctFields_spelledMembers named others distinct kept.unnamed),
    filter_spelledMembers named others kept.unnamed, membersToJson?_spelledMembers others tidy.2 numbers depth h,
    Option.map_some, Members.ofList_of_sorted others tidy.1]

theorem lookup_spelledMembers (ms : Members) (key : String) :
    (spelledMembers ms).lookup key = (ms.lookup key).map spelled := by
  induction ms with
  | nil => rfl
  | cons m rest ih =>
    obtain ⟨k, v⟩ := m
    rw [spelledMembers, List.lookup_cons, List.lookup_cons, ih]
    cases key == k <;> rfl

theorem keys_membersToJson? (depth : Nat) (ms : List (String × Document)) (vs : Members)
    (h : Document.membersToJson? depth ms = some vs) : vs.map Prod.fst = ms.map Prod.fst := by
  induction ms generalizing vs with
  | nil =>
    simp only [Document.membersToJson?, Option.some.injEq] at h
    rw [← h]
    rfl
  | cons m rest ih =>
    obtain ⟨k, d⟩ := m
    rw [Document.membersToJson?] at h
    split at h
    · next v ws _ hws =>
      rw [← Option.some.inj h, List.map_cons, List.map_cons, ih ws hws]
    · simp at h

theorem noneOf_of_openRecord (fields : List String) (depth : Nat) (d : Document) (r : Record) (others : Members)
    (h : openRecord fields depth d = some (r, others)) : NoneOf fields others := by
  unfold openRecord at h
  split at h
  · next below ms =>
    split at h
    · obtain ⟨vs, hvs, eq⟩ := Option.map_eq_some_iff.mp h
      obtain ⟨-, rfl⟩ := Prod.mk.inj eq
      intro m hm
      have key : m.1 ∈ vs.map Prod.fst := List.mem_map_of_mem (Members.mem_ofList vs m hm)
      rw [keys_membersToJson? _ _ _ hvs] at key
      obtain ⟨n, hn, same⟩ := List.mem_map.mp key
      have := (List.mem_filter.mp hn).2
      rw [same] at this
      simpa using this
    · simp at h
  · simp at h

theorem noneOf_of_required (r : Record) (field : String) (fields : List String) (kept : Record × Members)
    (h : r.required field (openRecord fields) = some kept) : NoneOf fields kept.2 := by
  obtain ⟨d, -, hd⟩ := Option.bind_eq_some_iff.mp h
  exact noneOf_of_openRecord fields r.depth d kept.1 kept.2 hd

theorem mem_of_list {α : Type} (item : Decoder α) (depth : Nat) (d : Document) (xs : List α)
    (h : Decoder.list item depth d = some xs) (x : α) (hx : x ∈ xs) : ∃ below e, item below e = some x := by
  unfold Decoder.list at h
  split at h
  · next below items =>
    induction items generalizing xs with
    | nil =>
      obtain rfl : [] = xs := Option.some.inj h
      simp at hx
    | cons e items ih =>
      rw [List.mapM_cons] at h
      obtain ⟨y, hy, h⟩ := Option.bind_eq_some_iff.mp h
      obtain ⟨ys, hys, h⟩ := Option.bind_eq_some_iff.mp h
      obtain rfl : y :: ys = xs := Option.some.inj h
      obtain rfl | hx := List.mem_cons.mp hx
      · exact ⟨below, e, hy⟩
      · exact ih ys hx hys
  · simp at h

theorem record_spelled (fields : List String) (named : Members) (names : named.map Prod.fst = fields)
    (distinct : fields.Nodup) (depth : Nat) :
    record fields (depth + 1) (Json.object named).spelled =
      some ⟨fields, .named (spelledMembers named), depth⟩ := by
  subst names
  have := distinctFields_spelledMembers named [] distinct (by simp [NoneOf])
  rw [List.append_nil] at this
  rw [spelled, record, if_pos this]

theorem required_of_lookup {α : Type} (fields : List String) (ms : Members) (depth : Nat) (field : String)
    (item : Decoder α) (v : Json) (h : ms.lookup field = some v) :
    Record.required ⟨fields, .named (spelledMembers ms), depth⟩ field item = item depth v.spelled := by
  simp only [Record.required, Record.part?, lookup_spelledMembers, h, Option.map_some, Option.bind_some]

theorem section_of_lookup (outer : List String) (ms : Members) (field : String) (fields : List String)
    (named others : Members) (names : named.map Prod.fst = fields) (distinct : fields.Nodup)
    (kept : others.KeptBeside fields) (depth : Nat) (shallow : membersDepth others ≤ depth)
    (h : ms.lookup field = some (.object (named ++ others))) :
    Record.required ⟨outer, .named (spelledMembers ms), depth + 1⟩ field (openRecord fields) =
      some (⟨fields, .named (spelledMembers (named ++ others)), depth⟩, others) := by
  rw [required_of_lookup outer ms (depth + 1) field _ _ h]
  exact openRecord_spelled fields named others names distinct kept depth shallow

theorem withDefault_of_lookup {α : Type} (fields : List String) (ms : Members) (depth : Nat) (field : String)
    (default : α) (item : Decoder α) (v : Json) (h : ms.lookup field = some v) :
    Record.withDefault ⟨fields, .named (spelledMembers ms), depth⟩ field default item = item depth v.spelled := by
  simp only [Record.withDefault, Record.part?, lookup_spelledMembers, h, Option.map_some]

/-! ## Lists -/

theorem list_spelled {α : Type} (item : Decoder α) (write : α → Json) (xs : List α) (depth : Nat)
    (h : ∀ x ∈ xs, item depth (write x).spelled = some x) :
    Decoder.list item (depth + 1) (Json.array (xs.map write)).spelled = some xs := by
  rw [spelled, Decoder.list, spelledItems_eq]
  induction xs with
  | nil => rfl
  | cons x xs ih =>
    have rest := ih fun y hy => h y (by simp [hy])
    rw [List.map_cons, List.map_cons, List.mapM_cons, h x (by simp), rest]
    rfl

theorem list_spelled_eq_none {α : Type} (item : Decoder α) (write : α → Json) (xs : List α) (depth : Nat)
    (x : α) (hx : x ∈ xs) (h : item depth (write x).spelled = none) :
    Decoder.list item (depth + 1) (Json.array (xs.map write)).spelled = none := by
  rw [spelled, Decoder.list, spelledItems_eq]
  induction xs with
  | nil => simp at hx
  | cons y xs ih =>
    rw [List.map_cons, List.map_cons, List.mapM_cons]
    obtain rfl | hx := List.mem_cons.mp hx
    · rw [h]
      rfl
    · rw [ih hx]
      cases item depth (write y).spelled <;> rfl

end Json

end ModelDepot
