import Mathlib.Data.List.Basic

/-!
# Element-wise copies between arrays

`std::copy` moves one element at a time, from the first to the last. `copyIn` copies
a separate array into a destination, `copyWithin` a range of an array onto another
range of the same array. Both return `none` at the first read or write that falls
outside the array, so a `some` result certifies that every access was in bounds.
-/

namespace ArrayCopy

variable {α : Type*}

/-- Copy `xs` into `buf` starting at index `d`. -/
def copyIn (buf : List α) (d : Nat) : List α → Option (List α)
  | [] => some buf
  | x :: xs => if d < buf.length then copyIn (buf.set d x) (d + 1) xs else none

/-- Copy `n` elements of `buf` from index `first` on to index `d` on, in ascending
order and in place. -/
def copyWithin (buf : List α) (first d : Nat) : Nat → Option (List α)
  | 0 => some buf
  | n + 1 =>
    match buf[first]? with
    | none => none
    | some x => if d < buf.length then copyWithin (buf.set d x) (first + 1) (d + 1) n else none

theorem take_succ_set {buf : List α} {d : Nat} (x : α) (hd : d < buf.length) :
    (buf.set d x).take (d + 1) = buf.take d ++ [x] := by
  rw [List.take_add_one, List.take_set_of_le (Nat.le_refl d), List.getElem?_set_self hd]
  rfl

theorem drop_set_of_lt {buf : List α} {d k : Nat} (x : α) (hk : d < k) :
    (buf.set d x).drop k = buf.drop k := by
  rw [List.drop_set, if_pos hk]

/-- A copy that fits replaces exactly its destination range. -/
theorem copyIn_eq {buf : List α} {d : Nat} {xs : List α} (h : d + xs.length ≤ buf.length) :
    copyIn buf d xs = some (buf.take d ++ xs ++ buf.drop (d + xs.length)) := by
  induction xs generalizing buf d with
  | nil => simp [copyIn]
  | cons x xs ih =>
    rw [List.length_cons] at h
    have hd : d < buf.length := by omega
    have hend : d + 1 + xs.length = d + (xs.length + 1) := by omega
    rw [copyIn, if_pos hd, ih (by rw [List.length_set]; omega), take_succ_set x hd,
      drop_set_of_lt x (by omega), hend]
    simp

/-- Copying downwards, overlapping or not, moves the original range: an element is
overwritten only after it has been read. -/
theorem copyWithin_eq {buf : List α} {first d n : Nat} (hd : d ≤ first)
    (h : first + n ≤ buf.length) :
    copyWithin buf first d n =
      some (buf.take d ++ (buf.drop first).take n ++ buf.drop (d + n)) := by
  induction n generalizing buf first d with
  | zero => simp [copyWithin]
  | succ n ih =>
    have hf : first < buf.length := by omega
    have hlt : d < buf.length := by omega
    have hhead : (buf.drop first).take (n + 1) =
        buf[first] :: (buf.drop (first + 1)).take n := by
      rw [List.drop_eq_getElem_cons hf, List.take_succ_cons]
    have hend : d + 1 + n = d + (n + 1) := by omega
    rw [copyWithin, List.getElem?_eq_getElem hf]
    simp only [if_pos hlt]
    rw [ih (by omega) (by rw [List.length_set]; omega), take_succ_set _ hlt,
      drop_set_of_lt _ (by omega : d < first + 1), drop_set_of_lt _ (by omega), hhead, hend]
    simp

theorem copyWithin_length {buf out : List α} {first d n : Nat}
    (h : copyWithin buf first d n = some out) : out.length = buf.length := by
  induction n generalizing buf first d with
  | zero =>
    cases h
    rfl
  | succ n ih =>
    rw [copyWithin] at h
    split at h
    · cases h
    · split at h
      · rw [ih h, List.length_set]
      · cases h

/-- The elements of `buf` with indices in `[r, w)`. -/
def window (buf : List α) (r w : Nat) : List α := (buf.drop r).take (w - r)

theorem window_length {buf : List α} {r w : Nat} (h : w ≤ buf.length) :
    (window buf r w).length = w - r := by
  rw [window, List.length_take, List.length_drop]
  omega

theorem window_self (buf : List α) (r : Nat) : window buf r r = [] := by
  simp [window]

theorem window_take {buf : List α} {r w n : Nat} (h : r + n ≤ w) :
    (window buf r w).take n = (buf.drop r).take n := by
  rw [window, List.take_take, Nat.min_eq_left (by omega)]

theorem window_drop (buf : List α) (r w n : Nat) :
    (window buf r w).drop n = window buf (r + n) w := by
  rw [window, window, List.drop_take, List.drop_drop, Nat.sub_sub]

theorem window_append_right {buf : List α} {r w : Nat} (tail : List α) (h : w ≤ buf.length)
    (hr : r ≤ w) : window (buf ++ tail) r w = window buf r w := by
  rw [window, window, List.drop_append_of_le_length (by omega), List.take_append_of_le_length]
  rw [List.length_drop]
  omega

/-- Data written at the end of a window extends the window. -/
theorem window_extend {buf : List α} {r w : Nat} (data tail : List α) (hr : r ≤ w)
    (hw : w ≤ buf.length) :
    window (buf.take w ++ data ++ tail) r (w + data.length) = window buf r w ++ data := by
  have hlen : ((buf.take w).drop r).length = w - r := by
    rw [List.length_drop, List.length_take]
    omega
  have hdrop : (buf.take w ++ data ++ tail).drop r = ((buf.take w).drop r ++ data) ++ tail := by
    rw [List.append_assoc, List.append_assoc,
      List.drop_append_of_le_length (by rw [List.length_take]; omega)]
  have htake : (buf.take w).drop r = window buf r w := by rw [window, List.drop_take]
  rw [window, hdrop, List.take_left' (by rw [List.length_append, hlen]; omega), htake]

/-- A window moved down to index `d` keeps its elements. -/
theorem window_moved {buf : List α} {d r w : Nat} (tail : List α) (hd : d ≤ buf.length)
    (hw : w ≤ buf.length) :
    window (buf.take d ++ window buf r w ++ tail) d (d + (w - r)) = window buf r w := by
  have htake : (buf.take d).length = d := by
    rw [List.length_take]
    omega
  rw [window, List.append_assoc, List.drop_left' htake, List.take_left']
  rw [window_length hw]
  omega

end ArrayCopy
