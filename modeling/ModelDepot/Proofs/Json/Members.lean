import Mathlib.Logic.Basic
import ModelDepot.Json.Value

/-! # Sorted members

Members that are sorted by key have each key once. Setting members one after the other keeps them so,
and leaves members alone that are sorted already.
-/

namespace ModelDepot

namespace Json

namespace Members

variable {α : Type}

/-- Every key is less than the keys after it. -/
def Sorted (ms : List (String × α)) : Prop := ms.Pairwise fun a b => a.1 < b.1

theorem mem_insert (key : String) (value : α) (ms : List (String × α)) (m : String × α)
    (h : m ∈ insert key value ms) : m = (key, value) ∨ m ∈ ms := by
  induction ms with
  | nil => exact .inl (List.mem_singleton.mp h)
  | cons n rest ih =>
    obtain ⟨k, v⟩ := n
    rw [insert] at h
    split at h
    · exact List.mem_cons.mp h
    · split at h
      · exact (List.mem_cons.mp h).imp_right (List.mem_cons_of_mem _)
      · obtain rfl | h := List.mem_cons.mp h
        · exact .inr (by simp)
        · exact (ih h).imp_right (List.mem_cons_of_mem _)

theorem sorted_insert (key : String) (value : α) (ms : List (String × α)) (h : Sorted ms) :
    Sorted (insert key value ms) := by
  induction ms with
  | nil => exact List.pairwise_singleton _ _
  | cons n rest ih =>
    obtain ⟨k, v⟩ := n
    obtain ⟨head, tail⟩ := List.pairwise_cons.mp h
    rw [insert]
    split
    · next less =>
      refine List.pairwise_cons.mpr ⟨?_, h⟩
      intro m hm
      obtain rfl | hm := List.mem_cons.mp hm
      · exact less
      · exact String.lt_trans less (head m hm)
    · split
      · next same =>
        subst same
        exact List.pairwise_cons.mpr ⟨head, tail⟩
      · next notLess other =>
        refine List.pairwise_cons.mpr ⟨?_, ih tail⟩
        intro m hm
        obtain rfl | hm := mem_insert _ _ _ _ hm
        · exact Std.lt_of_le_of_ne (String.not_lt.mp notLess) (Ne.symm other)
        · exact head m hm

theorem sorted_extend (base more : List (String × α)) (h : Sorted base) : Sorted (extend base more) := by
  induction more generalizing base with
  | nil => exact h
  | cons m more ih => exact ih _ (sorted_insert _ _ _ h)

theorem sorted_ofList (ms : List (String × α)) : Sorted (ofList ms) := sorted_extend [] ms List.Pairwise.nil

theorem mem_extend (base more : List (String × α)) (m : String × α) (h : m ∈ extend base more) :
    m ∈ base ∨ m ∈ more := by
  induction more generalizing base with
  | nil => exact .inl h
  | cons n more ih =>
    obtain h | h := ih _ h
    · obtain rfl | h := mem_insert _ _ _ _ h
      · exact .inr (by simp)
      · exact .inl h
    · exact .inr (List.mem_cons_of_mem _ h)

theorem mem_ofList (ms : List (String × α)) (m : String × α) (h : m ∈ ofList ms) : m ∈ ms :=
  (mem_extend [] ms m h).resolve_left (by simp)

theorem insert_of_forall_lt (key : String) (value : α) (ms : List (String × α)) (h : ∀ m ∈ ms, m.1 < key) :
    insert key value ms = ms ++ [(key, value)] := by
  induction ms with
  | nil => rfl
  | cons n rest ih =>
    obtain ⟨k, v⟩ := n
    have less : k < key := h (k, v) (by simp)
    rw [insert, if_neg (String.lt_asymm less), if_neg (String.ne_of_lt less).symm,
      ih fun m hm => h m (by simp [hm])]
    rfl

theorem extend_of_sorted (base more : List (String × α)) (h : Sorted (base ++ more)) :
    extend base more = base ++ more := by
  induction more generalizing base with
  | nil => simp [extend]
  | cons m more ih =>
    have before : ∀ n ∈ base, n.1 < m.1 := fun n hn => (List.pairwise_append.mp h).2.2 n hn m (by simp)
    have step : extend base (m :: more) = extend (insert m.1 m.2 base) more := rfl
    rw [step, insert_of_forall_lt _ _ _ before, ih _ (by simpa using h)]
    simp

theorem ofList_of_sorted (ms : List (String × α)) (h : Sorted ms) : ofList ms = ms :=
  extend_of_sorted [] ms h

/-! ## Looking up -/

theorem lookup_eq_none_iff {ms : List (String × α)} {key : String} : ms.lookup key = none ↔ key ∉ ms.map Prod.fst := by
  simp only [List.lookup_eq_none_iff, bne_iff_ne, ne_eq, List.mem_map, not_exists, not_and]
  exact forall₂_congr fun m _ => not_congr eq_comm

theorem lookup_insert (key : String) (value : α) (ms : List (String × α)) (k : String) :
    (insert key value ms).lookup k = if k = key then some value else ms.lookup k := by
  induction ms with
  | nil =>
    by_cases asked : k = key
    · simp [insert, asked]
    · simp [insert, List.lookup_cons, asked, beq_eq_false_iff_ne.mpr asked]
  | cons m rest ih =>
    obtain ⟨l, v⟩ := m
    rw [insert]
    split
    · rw [List.lookup_cons]
      by_cases asked : k = key
      · simp [asked]
      · simp only [beq_eq_false_iff_ne.mpr asked, if_neg asked]
    · next notLess =>
      split
      · next same =>
        subst same
        rw [List.lookup_cons, List.lookup_cons]
        by_cases asked : k = key
        · simp [asked]
        · simp only [beq_eq_false_iff_ne.mpr asked, if_neg asked]
      · next other =>
        rw [List.lookup_cons, List.lookup_cons, ih]
        by_cases asked : k = key
        · subst asked
          simp only [beq_eq_false_iff_ne.mpr other, if_true]
        · simp only [if_neg asked]

theorem lookup_extend_last (base more : List (String × α)) (k : String) :
    (extend base more).lookup k = (more.reverse.lookup k).or (base.lookup k) := by
  induction more generalizing base with
  | nil => rfl
  | cons m more ih =>
    obtain ⟨key, value⟩ := m
    have step : extend base ((key, value) :: more) = extend (insert key value base) more := rfl
    rw [step, ih, lookup_insert, List.reverse_cons, List.lookup_append, Option.or_assoc]
    by_cases asked : k = key
    · simp [asked]
    · simp [asked, List.lookup_cons, beq_eq_false_iff_ne.mpr asked]

theorem lookup_ofList (ms : List (String × α)) (k : String) : (ofList ms).lookup k = ms.reverse.lookup k := by
  rw [ofList, lookup_extend_last, List.lookup_nil, Option.or_none]

theorem lookup_extend (base more : List (String × α)) (distinct : (more.map Prod.fst).Nodup)
    (k : String) : (extend base more).lookup k = (more.lookup k).or (base.lookup k) := by
  induction more generalizing base with
  | nil => rfl
  | cons m more ih =>
    obtain ⟨key, value⟩ := m
    obtain ⟨once, distinct⟩ := List.nodup_cons.mp distinct
    have step : extend base ((key, value) :: more) = extend (insert key value base) more :=
      rfl
    rw [step, ih _ distinct, lookup_insert, List.lookup_cons]
    by_cases asked : k = key
    · subst asked
      simp [lookup_eq_none_iff.mpr once]
    · simp only [if_neg asked, beq_eq_false_iff_ne.mpr asked]

end Members

end Json

end ModelDepot
