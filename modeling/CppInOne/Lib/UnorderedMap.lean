import Mathlib.Data.List.Basic

/-!
# Maps that keep the first entry of a key

`std::unordered_map` as far as `insert` and `find` go: `insert` leaves a key alone that is
already there.
-/

/-- The entries of a map; an entry counts only if no earlier one has its key. -/
structure UnorderedMap (κ ν : Type*) where
  entries : List (κ × ν)
  deriving DecidableEq, Repr

namespace UnorderedMap

variable {κ ν : Type*} [BEq κ]

def empty : UnorderedMap κ ν := ⟨[]⟩

def find (m : UnorderedMap κ ν) (k : κ) : Option ν := m.entries.lookup k

def insert (m : UnorderedMap κ ν) (k : κ) (v : ν) : UnorderedMap κ ν :=
  match m.find k with
  | none => ⟨(k, v) :: m.entries⟩
  | some _ => m

@[simp] theorem find_empty (k : κ) : (empty : UnorderedMap κ ν).find k = none := rfl

theorem mem_of_find [LawfulBEq κ] {m : UnorderedMap κ ν} {k : κ} {v : ν} (h : m.find k = some v) :
    (k, v) ∈ m.entries := by
  obtain ⟨entries⟩ := m
  induction entries with
  | nil => cases h
  | cons e entries ih =>
    rw [find, List.lookup_cons] at h
    split at h
    · next heq =>
      obtain rfl := eq_of_beq heq
      cases h
      exact List.mem_cons_self
    · exact List.mem_cons_of_mem e (ih h)

/-- The first value inserted under a key stays. -/
theorem find_insert [LawfulBEq κ] (m : UnorderedMap κ ν) (k : κ) (v : ν) (k' : κ) :
    (m.insert k v).find k' = (m.find k').or (if k' == k then some v else none) := by
  by_cases hk : k' = k
  · subst hk
    unfold insert
    split
    · next h =>
      rw [h]
      simp [find]
    · next w h => simp [h]
  · unfold insert
    split
    · simp [find, List.lookup_cons, beq_false_of_ne hk]
    · simp [beq_false_of_ne hk]

/-- What an insertion makes found was there before, or is the new entry. -/
theorem of_find_insert [LawfulBEq κ] {m : UnorderedMap κ ν} {k k' : κ} {v w : ν}
    (h : (m.insert k v).find k' = some w) : m.find k' = some w ∨ (k' = k ∧ w = v) := by
  rw [find_insert, Option.or_eq_some_iff] at h
  obtain hold | ⟨-, hnew⟩ := h
  · exact Or.inl hold
  · obtain ⟨hk, hv⟩ := Option.ite_none_right_eq_some.mp hnew
    exact Or.inr ⟨eq_of_beq hk, (Option.some.inj hv).symm⟩

/-- Every entry has a key of its own. -/
def Distinct (m : UnorderedMap κ ν) : Prop := (m.entries.map Prod.fst).Nodup

omit [BEq κ] in
theorem distinct_empty : (empty : UnorderedMap κ ν).Distinct := List.nodup_nil

theorem find_of_mem [LawfulBEq κ] {m : UnorderedMap κ ν} (hm : m.Distinct) {k : κ} {v : ν}
    (h : (k, v) ∈ m.entries) : m.find k = some v := by
  obtain ⟨entries⟩ := m
  induction entries with
  | nil => cases h
  | cons e entries ih =>
    obtain ⟨hfirst, hrest⟩ := List.nodup_cons.mp hm
    rw [find, List.lookup_cons]
    obtain rfl | h := List.mem_cons.mp h
    · simp
    · have hne : k ≠ e.1 := by
        intro heq
        exact hfirst (heq ▸ List.mem_map_of_mem h)
      rw [beq_false_of_ne hne]
      exact ih hrest h

theorem mem_entries_insert {m : UnorderedMap κ ν} {k : κ} {v : ν} {e : κ × ν}
    (h : e ∈ (m.insert k v).entries) : e ∈ m.entries ∨ e = (k, v) := by
  unfold insert at h
  split at h
  · exact (List.mem_cons.mp h).symm
  · exact Or.inl h

theorem Distinct.insert [LawfulBEq κ] {m : UnorderedMap κ ν} (hm : m.Distinct) (k : κ) (v : ν) :
    (m.insert k v).Distinct := by
  unfold UnorderedMap.insert
  split
  · next hnone =>
    refine List.nodup_cons.mpr ⟨fun hmem => ?_, hm⟩
    obtain ⟨e, he, rfl⟩ := List.mem_map.mp hmem
    rw [find_of_mem hm he] at hnone
    cases hnone
  · exact hm

/-- After insertions one by one, a key is found where it comes first. -/
theorem find_foldl_insert [LawfulBEq κ] {ι : Type*} (key : ι → κ) (val : ι → ν)
    (m : UnorderedMap κ ν) (xs : List ι) (k : κ) :
    (xs.foldl (fun m x => m.insert (key x) (val x)) m).find k =
      (m.find k).or ((xs.find? fun x => k == key x).map val) := by
  induction xs generalizing m with
  | nil => simp
  | cons x xs ih =>
    rw [List.foldl_cons, ih, find_insert, Option.or_assoc, List.find?_cons]
    cases hk : k == key x with
    | true => simp
    | false => simp

theorem distinct_foldl_insert [LawfulBEq κ] {ι : Type*} (key : ι → κ) (val : ι → ν)
    {m : UnorderedMap κ ν} (hm : m.Distinct) (xs : List ι) :
    (xs.foldl (fun m x => m.insert (key x) (val x)) m).Distinct := by
  induction xs generalizing m with
  | nil => exact hm
  | cons x xs ih => exact ih (hm.insert (key x) (val x))

theorem mem_entries_foldl_insert {ι : Type*} (key : ι → κ) (val : ι → ν) {m : UnorderedMap κ ν}
    {xs : List ι} {e : κ × ν}
    (h : e ∈ (xs.foldl (fun m x => m.insert (key x) (val x)) m).entries) :
    e ∈ m.entries ∨ ∃ x ∈ xs, e = (key x, val x) := by
  induction xs generalizing m with
  | nil => exact Or.inl h
  | cons x xs ih =>
    obtain hold | ⟨y, hy, rfl⟩ := ih h
    · obtain hold | rfl := mem_entries_insert hold
      · exact Or.inl hold
      · exact Or.inr ⟨x, List.mem_cons_self, rfl⟩
    · exact Or.inr ⟨y, List.mem_cons_of_mem x hy, rfl⟩

end UnorderedMap

/-- A key that only one element has finds this element. -/
theorem List.find?_key {ι κ : Type*} [BEq κ] [LawfulBEq κ] {key : ι → κ} {xs : List ι} {x : ι}
    (h : xs.Pairwise fun y z => key y ≠ key z) (hx : x ∈ xs) :
    xs.find? (fun y => key x == key y) = some x := by
  induction xs with
  | nil => cases hx
  | cons y xs ih =>
    obtain ⟨hy, hrest⟩ := List.pairwise_cons.mp h
    obtain rfl | hx := List.mem_cons.mp hx
    · simp
    · rw [List.find?_cons, beq_false_of_ne (hy x hx).symm]
      exact ih hrest hx
