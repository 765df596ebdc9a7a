import CppInOne.Lib.Loop
import Mathlib.Algebra.Group.Int.Defs
import Mathlib.Algebra.Group.Nat.Defs
import Mathlib.Data.Int.Basic
import Mathlib.Data.List.Induction

/-!
# The selection program `TopK.cpp`

`partation` splits a range of a vector at the value of its first element, and `selectNoK` looks for
the element at a position of the sorted vector. Both get their vector by value: what `partation`
rearranges is a copy that ends with the call.

An access outside of the vector is `none`. An `int` is an integer without bounds, but for the
conversion of the size in `main`: positions stay next to those of the vector, and values are only
compared and copied.

## Main results

- `scanDown_eq`, `scanUp_eq` — where the two inner loops stop
-/

namespace CppInOne.Algorithm.TopK

open Loop

/-- `vec[i]`, where a negative `i` becomes a large `size_t`. -/
def load (vec : List ℤ) (i : ℤ) : Option ℤ := if 0 ≤ i then vec[i.toNat]? else none

/-- `vec[i] = x` -/
def store (vec : List ℤ) (i x : ℤ) : Option (List ℤ) :=
  if 0 ≤ i ∧ i < vec.length then some (vec.set i.toNat x) else none

/-- The variables of `partation` that change. -/
structure Part where
  arr : List ℤ
  i : ℤ
  j : ℤ
  deriving DecidableEq, Repr

/-- One more than the rounds that a loop of `partation` can make. -/
def Part.rounds (s : Part) : ℕ := (s.j - s.i).toNat + 1

/-- `while (i < j && arr[j] > k) --j;` -/
def scanDown (k : ℤ) : ℕ → Part → Option Part
  | 0, _ => none
  | n + 1, s =>
    if s.i < s.j then do
      let x ← load s.arr s.j
      if x > k then scanDown k n { s with j := s.j - 1 } else some s
    else some s

/-- `while (i < j && arr[i] < k) ++i;` -/
def scanUp (k : ℤ) : ℕ → Part → Option Part
  | 0, _ => none
  | n + 1, s =>
    if s.i < s.j then do
      let x ← load s.arr s.i
      if x < k then scanUp k n { s with i := s.i + 1 } else some s
    else some s

/-- `if (i < j) arr[i++] = arr[j--];` -/
def moveDown (s : Part) : Option Part :=
  if s.i < s.j then do
    let x ← load s.arr s.j
    let arr ← store s.arr s.i x
    some ⟨arr, s.i + 1, s.j - 1⟩
  else some s

/-- `if (i < j) arr[j--] = arr[i++];` -/
def moveUp (s : Part) : Option Part :=
  if s.i < s.j then do
    let x ← load s.arr s.i
    let arr ← store s.arr s.j x
    some ⟨arr, s.i + 1, s.j - 1⟩
  else some s

/-- The body of the outer loop. -/
def round (k : ℤ) (s : Part) : Option Part := do
  let s ← scanDown k s.rounds s
  let s ← moveDown s
  let s ← scanUp k s.rounds s
  moveUp s

/-- `while (i < j)` -/
def rearrange (k : ℤ) : ℕ → Part → Option Part
  | 0, _ => none
  | n + 1, s => if s.i < s.j then (round k s).bind (rearrange k n) else some s

/-- The vector as `partation` leaves it, and the position that it returns. -/
def partation (arr : List ℤ) (i j : ℤ) : Option (List ℤ × ℤ) := do
  let k ← load arr i
  let s ← rearrange k (Part.rounds ⟨arr, i, j⟩) ⟨arr, i, j⟩
  let arr ← store s.arr s.i k
  some (arr, s.i)

/-- The parameters and the variable of `selectNoK` that change from call to call. -/
structure Selection where
  i : ℤ
  j : ℤ
  pos : ℤ
  deriving DecidableEq, Repr

/-- One call of `selectNoK`; where it calls itself, the next one. -/
def selectCall (arr : List ℤ) (k : ℤ) (s : Selection) : Round Selection :=
  match partation arr s.i s.j with
  | none => .fault
  | some (_, pos) =>
    if pos = k then .done { s with pos := pos }
    else if pos < k - 1 then .next { i := pos + 1, j := s.j, pos := pos }
    else .next { i := s.i, j := pos - 1, pos := pos }

def selectNoK (arr : List ℤ) (i j k : ℤ) (calls : ℕ) : Round Selection :=
  loop (selectCall arr k) calls ⟨i, j, 0⟩

/-- `vec.size() - 1` as an argument for an `int`. -/
def lastIndex (vec : List ℤ) : ℤ := ((vec.length : ℤ) - 1).bmod (2 ^ 32)

/-! ## Access -/

variable {k x y i j : ℤ} {n : ℕ} {front above below back vec vec' : List ℤ}

@[simp] theorem load_append (hi : i = front.length) : load (front ++ x :: back) i = some x := by
  simp [load, hi]

@[simp] theorem store_append (hi : i = front.length) :
    store (front ++ x :: back) i y = some (front ++ y :: back) := by
  rw [store, if_pos (by rw [List.length_append, List.length_cons]; omega), hi]
  simp

theorem store_eq_of_append (hvec : vec = front ++ x :: back) (hi : i = front.length)
    (hvec' : vec' = front ++ y :: back) : store vec i y = some vec' := by
  rw [hvec, store_append hi, hvec']

theorem exists_load (hi : 0 ≤ i) (hi' : i < vec.length) : ∃ x, load vec i = some x := by
  rw [load, if_pos hi]
  exact ⟨_, List.getElem?_eq_getElem (by omega)⟩

/-! ## The inner loops -/

/-- The first inner loop passes the elements above the pivot. -/
theorem scanDown_eq (hi : i < front.length) (habove : ∀ x ∈ above, k < x)
    (hstop : (front.length : ℤ) ≤ i + 1 ∨ ∃ front' x, front = front' ++ [x] ∧ x ≤ k)
    (hn : above.length < n) (hj : j + 1 = front.length + above.length) :
    scanDown k n ⟨front ++ above ++ back, i, j⟩ =
      some ⟨front ++ above ++ back, i, front.length - 1⟩ := by
  induction above using List.reverseRecOn generalizing back n j with
  | nil =>
    obtain ⟨n, rfl⟩ : ∃ n', n = n' + 1 := ⟨n - 1, by omega⟩
    rw [List.length_nil, Int.natCast_zero, Int.add_zero] at hj
    obtain rfl : j = front.length - 1 := by omega
    rw [scanDown]
    dsimp only
    obtain hle | ⟨front', x, rfl, hx⟩ := hstop
    · rw [if_neg (by omega)]
    · have hload : load (front' ++ [x] ++ [] ++ back) ((front' ++ [x]).length - 1) = some x := by
        rw [List.append_nil, List.append_assoc, List.singleton_append]
        apply load_append
        rw [List.length_append, List.length_singleton]
        omega
      split
      · rw [hload, Option.bind_eq_bind, Option.bind_some, if_neg (Int.not_lt.mpr hx)]
      · rfl
  | append_singleton above a ih =>
    obtain ⟨n, rfl⟩ : ∃ n', n = n' + 1 := ⟨n - 1, by omega⟩
    rw [List.length_append, List.length_singleton] at hn hj
    have ha : k < a := habove a (List.mem_append_right _ List.mem_cons_self)
    have hsplit : front ++ (above ++ [a]) ++ back = front ++ above ++ (a :: back) := by simp
    have hload : load (front ++ above ++ (a :: back)) j = some a := by
      apply load_append
      rw [List.length_append]
      omega
    rw [hsplit, scanDown]
    dsimp only
    rw [if_pos (by omega), hload, Option.bind_eq_bind, Option.bind_some, if_pos ha]
    apply ih
    · exact fun x hx => habove x (List.mem_append_left _ hx)
    · omega
    · omega

/-- The second inner loop passes the elements below the pivot. -/
theorem scanUp_eq (hbelow : ∀ x ∈ below, x < k)
    (hstop : j ≤ front.length + below.length ∨ ∃ x back', back = x :: back' ∧ k ≤ x)
    (hj : front.length + below.length ≤ j ∨ below = [])
    (hn : below.length < n) (hi : i = front.length) :
    scanUp k n ⟨front ++ below ++ back, i, j⟩ =
      some ⟨front ++ below ++ back, front.length + below.length, j⟩ := by
  induction below generalizing front n i with
  | nil =>
    obtain ⟨n, rfl⟩ : ∃ n', n = n' + 1 := ⟨n - 1, by omega⟩
    rw [List.length_nil, Int.natCast_zero, Int.add_zero] at hstop ⊢
    rw [scanUp, hi]
    dsimp only
    obtain hle | ⟨x, back', rfl, hx⟩ := hstop
    · rw [if_neg (by omega)]
    · split
      · rw [List.append_nil, load_append rfl, Option.bind_eq_bind, Option.bind_some,
          if_neg (Int.not_lt.mpr hx)]
      · rfl
  | cons b below ih =>
    obtain ⟨n, rfl⟩ : ∃ n', n = n' + 1 := ⟨n - 1, by omega⟩
    rw [List.length_cons] at hn hstop hj
    obtain ⟨hb, hbelow⟩ := List.forall_mem_cons.mp hbelow
    have hj := hj.resolve_right (List.cons_ne_nil b below)
    have hsplit : front ++ b :: below ++ back = front ++ [b] ++ below ++ back := by simp
    have hlength : ((front ++ [b]).length : ℤ) = front.length + 1 := by simp
    have hload : load (front ++ b :: below ++ back) i = some b := by
      rw [List.append_assoc, List.cons_append]
      exact load_append hi
    rw [scanUp]
    dsimp only
    rw [if_pos (by omega), hload, Option.bind_eq_bind, Option.bind_some, if_pos hb, hsplit,
      List.length_cons, ih hbelow]
    · rw [hlength]
      congr 2
      omega
    · rw [hlength]
      exact hstop.imp_left fun hle => by omega
    · left
      omega
    · omega
    · omega

end CppInOne.Algorithm.TopK
