import Mathlib.Data.List.Sort
import Mathlib.Data.Multiset.AddSub

/-!
# Priority queues, and the largest elements of a stream

A priority queue is given by what it does to the elements in it: the top is one of those with the
least key, whichever.

## Main definitions

- `PriorityQueue` — the operations with their laws
- `Dominates` — nothing that was dropped has a larger key than what is kept
- `PriorityQueue.sortedList` — an implementation

## Main results

- `Dominates.replace`, `Dominates.skip` — a new element against the least one that is kept
-/

variable {α β : Type*} [LinearOrder β]

/-- A queue whose top is an element with the least key. -/
structure PriorityQueue (α : Type*) {β : Type*} [LinearOrder β] (key : α → β) where
  Heap : Type*
  empty : Heap
  push : α → Heap → Heap
  pop : Heap → Heap
  top : Heap → Option α
  elems : Heap → Multiset α
  elems_empty : elems empty = 0
  elems_push : ∀ a h, elems (push a h) = a ::ₘ elems h
  exists_top : ∀ h, elems h ≠ 0 → ∃ t, top h = some t
  top_mem : ∀ h t, top h = some t → t ∈ elems h
  top_le : ∀ h t, top h = some t → ∀ a ∈ elems h, key t ≤ key a
  elems_pop : ∀ h t, top h = some t → t ::ₘ elems (pop h) = elems h

/-- What is kept has keys at least as large as what has been dropped. -/
def Dominates (key : α → β) (kept dropped : Multiset α) : Prop :=
  ∀ d ∈ dropped, ∀ a ∈ kept, key d ≤ key a

namespace Dominates

variable {key : α → β} {kept rest dropped : Multiset α} {a t : α}

theorem nothing (key : α → β) (kept : Multiset α) : Dominates key kept 0 :=
  fun d hd => absurd hd (Multiset.notMem_zero d)

/-- The new element takes the place of the least one. -/
theorem replace (h : Dominates key kept dropped) (hkept : t ::ₘ rest = kept)
    (hleast : ∀ b ∈ kept, key t ≤ key b) (ha : key t < key a) :
    Dominates key (a ::ₘ rest) (t ::ₘ dropped) := by
  subst hkept
  intro d hd b hb
  have ht : key d ≤ key t := by
    obtain rfl | hd := Multiset.mem_cons.mp hd
    · exact le_rfl
    · exact h d hd t (Multiset.mem_cons_self t rest)
  apply ht.trans
  obtain rfl | hb := Multiset.mem_cons.mp hb
  · exact ha.le
  · exact hleast b (Multiset.mem_cons_of_mem hb)

/-- The new element is dropped itself. -/
theorem skip (h : Dominates key kept dropped) (hleast : ∀ b ∈ kept, key t ≤ key b)
    (ha : key a ≤ key t) : Dominates key kept (a ::ₘ dropped) := by
  intro d hd b hb
  obtain rfl | hd := Multiset.mem_cons.mp hd
  · exact ha.trans (hleast b hb)
  · exact h d hd b hb

end Dominates

/-- The queue as a list with rising keys. -/
def PriorityQueue.sortedList (key : α → β) : PriorityQueue α key where
  Heap := { l : List α // l.Pairwise fun a b => key a ≤ key b }
  empty := ⟨[], List.Pairwise.nil⟩
  push a l := ⟨l.1.orderedInsert (fun a b => key a ≤ key b) a, l.2.orderedInsert a l.1⟩
  pop l := ⟨l.1.tail, l.2.tail⟩
  top l := l.1.head?
  elems l := l.1
  elems_empty := rfl
  elems_push a l := Multiset.coe_eq_coe.mpr (List.perm_orderedInsert _ a l.1)
  exists_top := by
    rintro ⟨l, hl⟩ hne
    cases l with
    | nil => exact absurd rfl hne
    | cons t l => exact ⟨t, rfl⟩
  top_mem := by
    rintro ⟨l, hl⟩ t ht
    exact List.mem_of_head? ht
  top_le := by
    rintro ⟨l, hl⟩ t ht a ha
    obtain ⟨rest, rfl⟩ := List.head?_eq_some_iff.mp ht
    obtain rfl | ha := List.mem_cons.mp ha
    · exact le_rfl
    · exact (List.pairwise_cons.mp hl).1 a ha
  elems_pop := by
    rintro ⟨l, hl⟩ t ht
    obtain ⟨rest, rfl⟩ := List.head?_eq_some_iff.mp ht
    rfl
