import Mathlib.Data.List.Sort

/-!
# Order statistics

The element at a position of a sorted list, by the numbers of elements below it and up to it.

## Main results

- `getElem?_eq_some_iff` — in a list that is sorted
- `mergeSort_getElem?_eq_some_iff` — after sorting
-/

namespace OrderStatistic

variable {α : Type*} [LinearOrder α] {x a : α} {s : List α} {k : ℕ}

/-- By induction on the list: a first element below `x` moves both numbers. -/
theorem getElem?_eq_some_iff (hs : s.Pairwise (· ≤ ·)) :
    s[k]? = some x ↔ s.countP (· < x) ≤ k ∧ k < s.countP (· ≤ x) := by
  induction s generalizing k with
  | nil => simp
  | cons a s ih =>
    obtain ⟨ha, hs⟩ := List.pairwise_cons.mp hs
    simp only [List.countP_cons, decide_eq_true_eq]
    by_cases hlt : a < x
    · rw [if_pos hlt, if_pos hlt.le]
      cases k with
      | zero => simp [hlt.ne]
      | succ k =>
        rw [List.getElem?_cons_succ, ih hs]
        omega
    · have hnone : s.countP (· < x) = 0 := by
        apply List.countP_eq_zero.mpr
        intro b hb
        have hab := ha b hb
        simpa using (not_lt.mp hlt).trans hab
      rw [if_neg hlt, hnone]
      by_cases hle : a ≤ x
      · obtain rfl := le_antisymm hle (not_lt.mp hlt)
        rw [if_pos le_rfl]
        cases k with
        | zero => simp
        | succ k =>
          rw [List.getElem?_cons_succ, ih hs, hnone]
          omega
      · -- All elements are above `x`.
        have habove : ∀ b ∈ a :: s, ¬ b ≤ x := by
          refine List.forall_mem_cons.mpr ⟨hle, fun b hb hbx => ?_⟩
          exact hle ((ha b hb).trans hbx)
        have hnone' : s.countP (· ≤ x) = 0 := by
          apply List.countP_eq_zero.mpr
          intro b hb
          simpa using habove b (List.mem_cons_of_mem a hb)
        rw [if_neg hle, hnone']
        refine iff_of_false (fun hget => ?_) (by omega)
        exact habove x (List.mem_of_getElem? hget) le_rfl

theorem mergeSort_getElem?_eq_some_iff {vec : List α} :
    (vec.mergeSort (· ≤ ·))[k]? = some x ↔ vec.countP (· < x) ≤ k ∧ k < vec.countP (· ≤ x) := by
  have hperm := List.mergeSort_perm vec (· ≤ ·)
  rw [getElem?_eq_some_iff (List.pairwise_mergeSort' (· ≤ ·) vec), hperm.countP_eq,
    hperm.countP_eq]

end OrderStatistic
