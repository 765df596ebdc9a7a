import Mathlib.Data.List.Range
import Mathlib.Logic.Function.Basic

/-!
# Ring buffers

A queue in the cells `0, …, size - 1` of a memory: `count` cells from `head` on hold its
elements, and behind the last cell comes the first one again.

## Main definitions

- `contents` — the elements, the oldest first
- `Valid` — the indices of a ring buffer with head, tail and count
-/

namespace RingBuffer
open Function

variable {α : Type*} {size head tail count : Nat}

/-- The elements of the buffer, the oldest first. -/
def contents (size : Nat) (mem : Nat → α) (head count : Nat) : List α :=
  (List.range count).map fun k => mem ((head + k) % size)

/-- Head and tail are cells, and the tail is `count` cells behind the head. -/
structure Valid (size head tail count : Nat) : Prop where
  head_lt : head < size
  count_le : count ≤ size
  tail_eq : (head + count) % size = tail

theorem Valid.tail_lt (h : Valid size head tail count) : tail < size := by
  rw [← h.tail_eq]
  apply Nat.mod_lt
  have hhead := h.head_lt
  omega

theorem Valid.push (h : Valid size head tail count) (hcount : count < size) :
    Valid size head ((tail + 1) % size) (count + 1) where
  head_lt := h.head_lt
  count_le := hcount
  tail_eq := by
    rw [← h.tail_eq, Nat.mod_add_mod]
    rfl

theorem Valid.pop (h : Valid size head tail (count + 1)) :
    Valid size ((head + 1) % size) tail count where
  head_lt := by
    apply Nat.mod_lt
    have hhead := h.head_lt
    omega
  count_le := Nat.le_of_succ_le h.count_le
  tail_eq := by
    rw [← h.tail_eq, Nat.mod_add_mod]
    congr 1
    omega

@[simp] theorem length_contents (size : Nat) (mem : Nat → α) (head count : Nat) :
    (contents size mem head count).length = count := by
  rw [contents, List.length_map, List.length_range]

/-- Fewer than `size` cells further on lies another cell. -/
theorem cell_ne {j k : Nat} (hj : j < k) (hk : k < size) :
    (head + j) % size ≠ (head + k) % size := by
  intro heq
  have hzero := Nat.sub_mod_eq_zero_of_mod_eq heq.symm
  rw [Nat.mod_eq_of_lt (by omega)] at hzero
  omega

/-- Writing the tail cell appends an element. -/
theorem contents_push (mem : Nat → α) (x : α) (h : Valid size head tail count)
    (hcount : count < size) :
    contents size (update mem tail x) head (count + 1) = contents size mem head count ++ [x] := by
  have hold : contents size (update mem tail x) head count = contents size mem head count := by
    apply List.map_congr_left
    intro k hk
    apply update_of_ne
    rw [← h.tail_eq]
    exact cell_ne (List.mem_range.mp hk) hcount
  have hlast : contents size (update mem tail x) head (count + 1) =
      contents size (update mem tail x) head count ++
        [update mem tail x ((head + count) % size)] := by
    rw [contents, List.range_succ, List.map_append]
    rfl
  rw [hlast, hold, h.tail_eq, update_self]

/-- The head cell holds the oldest element. -/
theorem contents_pop (mem : Nat → α) (h : Valid size head tail (count + 1)) :
    contents size mem head (count + 1) =
      mem head :: contents size mem ((head + 1) % size) count := by
  rw [contents, List.range_succ_eq_map, List.map_cons, List.map_map]
  congr 1
  · rw [Nat.add_zero, Nat.mod_eq_of_lt h.head_lt]
  · apply List.map_congr_left
    intro k _
    show mem ((head + (k + 1)) % size) = mem (((head + 1) % size + k) % size)
    rw [Nat.mod_add_mod]
    congr 2
    omega

end RingBuffer
