import CppInOne.Algorithm.TopK
import Mathlib.Data.List.Count
import Mathlib.Data.List.Perm.Basic

/-!
# The split of a range

The two moves of `partation` should fill the hole that the last one has left. But each of them also
moves both indices on, so that the second one writes next to the hole: the element there is lost,
and the one that was moved first stays twice.

## Main definitions

- `Rearranged` — what `partation` makes of a range
- `Settled` — the ranges of which only elements that equal the pivot are written over

## Main results

- `Rearranged.run` — the loops of `partation` end, and do so
- `partation_partitions_iff` — `partation` partitions exactly the settled ranges
-/

namespace CppInOne.Algorithm.TopK

/-- The range becomes `left`, the pivot and `right`. In `meet` the indices meet at `t`, and in
`cross` they pass each other behind the second move, which is then undone. -/
inductive Rearranged (k : ℤ) : List ℤ → List ℤ → List ℤ → Prop
  | stop {y : ℤ} {above : List ℤ} (habove : ∀ x ∈ above, k < x) :
      Rearranged k (y :: above) [] above
  | adjacent {y x : ℤ} {above : List ℤ} (hx : x ≤ k) (habove : ∀ x ∈ above, k < x) :
      Rearranged k (y :: x :: above) [x] above
  | meet {y t x : ℤ} {below above : List ℤ} (hbelow : ∀ x ∈ below, x < k) (hx : x ≤ k)
      (habove : ∀ x ∈ above, k < x) :
      Rearranged k (y :: below ++ t :: x :: above) (x :: below) (x :: above)
  | cross {y z t x : ℤ} {below above : List ℤ} (hbelow : ∀ x ∈ below, x < k) (hz : k ≤ z)
      (hx : x ≤ k) (habove : ∀ x ∈ above, k < x) :
      Rearranged k (y :: below ++ z :: t :: x :: above) (x :: below ++ [z]) (x :: above)
  | nested {y z t x : ℤ} {below inner above left right : List ℤ} (hbelow : ∀ x ∈ below, x < k)
      (hz : k ≤ z) (hx : x ≤ k) (habove : ∀ x ∈ above, k < x)
      (hinner : Rearranged k inner left right) :
      Rearranged k (y :: below ++ z :: (inner ++ t :: x :: above)) (x :: below ++ z :: left)
        (right ++ z :: x :: above)

/-- The ranges that `partation` does not spoil: each element that is written over equals the pivot,
and so does what is written, but for the element behind the pivot, which may change places with
it. -/
inductive Settled (k : ℤ) : List ℤ → Prop
  | stop {above : List ℤ} (habove : ∀ x ∈ above, k < x) : Settled k (k :: above)
  | adjacent {x : ℤ} {above : List ℤ} (hx : x ≤ k) (habove : ∀ x ∈ above, k < x) :
      Settled k (k :: x :: above)
  | meet {below above : List ℤ} (hbelow : ∀ x ∈ below, x < k) (habove : ∀ x ∈ above, k < x) :
      Settled k (k :: below ++ k :: k :: above)
  | cross {below above : List ℤ} (hbelow : ∀ x ∈ below, x < k) (habove : ∀ x ∈ above, k < x) :
      Settled k (k :: below ++ k :: k :: k :: above)
  | nested {below inner above : List ℤ} (hbelow : ∀ x ∈ below, x < k)
      (habove : ∀ x ∈ above, k < x) (hinner : Settled k inner) :
      Settled k (k :: below ++ k :: (inner ++ k :: k :: above))

/-- `left` and `right` split the range at the pivot. -/
structure Splits (k : ℤ) (mid left right : List ℤ) : Prop where
  left_le : ∀ x ∈ left, x ≤ k
  le_right : ∀ x ∈ right, k ≤ x
  perm : (left ++ k :: right).Perm mid

/-- The elements at the positions from `i` up to the one before `j`. -/
def slice (vec : List ℤ) (i j : ℤ) : List ℤ := (vec.drop i.toNat).take (j - i).toNat

/-- `arr'` is partitioned between `i` and `j`, with the pivot at `p`. -/
structure Partitioned (arr : List ℤ) (i j : ℤ) (arr' : List ℤ) (p : ℤ) : Prop where
  lower : i ≤ p
  upper : p ≤ j
  pivot : load arr' p = load arr i
  perm : (slice arr' i (j + 1)).Perm (slice arr i (j + 1))
  below : ∀ k ∈ load arr i, ∀ x ∈ slice arr' i p, x ≤ k
  above : ∀ k ∈ load arr i, ∀ x ∈ slice arr' (p + 1) (j + 1), k ≤ x
  outside : ∀ q, q < i ∨ j < q → load arr' q = load arr q

variable {k x y z t i j : ℤ} {n : ℕ} {s s' : Part}
  {front above below back mid inner left right left' right' : List ℤ}

/-! ## One round -/

theorem round_eq : round k s = ((scanDown k s.rounds s).bind moveDown).bind fun s =>
    (scanUp k s.rounds s).bind moveUp := by
  simp [round, Option.bind_assoc]

/-- The first scan reaches the hole. -/
theorem descend_stop (habove : ∀ x ∈ above, k < x) (hi : i = front.length)
    (hj : j = front.length + above.length) :
    (scanDown k (Part.rounds ⟨front ++ y :: above ++ back, i, j⟩)
        ⟨front ++ y :: above ++ back, i, j⟩).bind moveDown =
      some ⟨front ++ y :: above ++ back, i, i⟩ := by
  have hlength : ((front ++ [y]).length : ℤ) = front.length + 1 := by simp
  have hrounds : above.length < Part.rounds ⟨front ++ [y] ++ above ++ back, i, j⟩ := by
    simp only [Part.rounds]
    omega
  rw [List.append_cons, scanDown_eq (by omega) habove (Or.inl (by omega)) hrounds (by omega),
    Option.bind_some, moveDown, if_neg]
  · rw [hlength, hi, Int.add_sub_cancel]
  · dsimp only
    omega

/-- The first scan stops at `x`, which is copied into the hole. -/
theorem descend_move (hx : x ≤ k) (habove : ∀ x ∈ above, k < x) (hi : i = front.length)
    (hj : j = front.length + mid.length + 1 + above.length) :
    (scanDown k (Part.rounds ⟨front ++ y :: mid ++ x :: above ++ back, i, j⟩)
        ⟨front ++ y :: mid ++ x :: above ++ back, i, j⟩).bind moveDown =
      some ⟨front ++ x :: mid ++ x :: above ++ back, i + 1, i + mid.length⟩ := by
  have hlength : ((front ++ y :: mid ++ [x]).length : ℤ) = front.length + mid.length + 2 := by
    simp only [List.length_append, List.length_cons, List.length_nil]
    omega
  have hrounds : above.length <
      Part.rounds ⟨front ++ y :: mid ++ [x] ++ above ++ back, i, j⟩ := by
    simp only [Part.rounds]
    omega
  have hload : load (front ++ y :: mid ++ [x] ++ above ++ back) (front.length + mid.length + 1) =
      some x := by
    rw [List.append_assoc, List.append_assoc _ [x], List.singleton_append]
    apply load_append
    rw [List.length_append, List.length_cons]
    omega
  have hstore : store (front ++ y :: mid ++ [x] ++ above ++ back) i x =
      some (front ++ x :: mid ++ [x] ++ above ++ back) := by
    simp only [List.append_assoc, List.cons_append]
    exact store_append hi
  rw [List.append_cons _ x, scanDown_eq (by omega) habove (Or.inr ⟨_, x, rfl, hx⟩) hrounds
    (by omega), Option.bind_some, moveDown]
  dsimp only
  rw [if_pos (by omega), hlength, show (front.length + mid.length + 2 - 1 : ℤ) =
    front.length + mid.length + 1 by omega, hload, Option.bind_eq_bind, Option.bind_some, hstore,
    Option.bind_eq_bind, Option.bind_some, ← List.append_cons]
  congr 2
  omega

/-- The second scan reaches the other index. -/
theorem ascend_stop (hbelow : ∀ x ∈ below, x < k) (hi : i = front.length)
    (hj : j = front.length + below.length ∨ below = [] ∧ j < front.length) :
    (scanUp k (Part.rounds ⟨front ++ below ++ back, i, j⟩)
        ⟨front ++ below ++ back, i, j⟩).bind moveUp =
      some ⟨front ++ below ++ back, i + below.length, j⟩ := by
  have hend : j = front.length + below.length ∨ below.length = 0 ∧ j < front.length :=
    hj.imp_right (And.imp_left List.length_eq_zero_iff.mpr)
  have hrounds : below.length < Part.rounds ⟨front ++ below ++ back, i, j⟩ := by
    simp only [Part.rounds]
    omega
  rw [scanUp_eq hbelow (Or.inl (by omega)) (hj.imp (fun h => by omega) And.left) hrounds hi,
    Option.bind_some, moveUp, if_neg]
  · rw [hi]
  · dsimp only
    omega

/-- The second scan stops at `z`, which is copied over `t`. -/
theorem ascend_move (hbelow : ∀ x ∈ below, x < k) (hz : k ≤ z) (hi : i = front.length)
    (hj : j = front.length + below.length + 1 + mid.length) :
    (scanUp k (Part.rounds ⟨front ++ below ++ z :: mid ++ t :: back, i, j⟩)
        ⟨front ++ below ++ z :: mid ++ t :: back, i, j⟩).bind moveUp =
      some ⟨front ++ below ++ z :: mid ++ z :: back, i + below.length + 1,
        i + below.length + mid.length⟩ := by
  have hrounds : below.length <
      Part.rounds ⟨front ++ below ++ (z :: (mid ++ t :: back)), i, j⟩ := by
    simp only [Part.rounds]
    omega
  have hload : load (front ++ below ++ z :: (mid ++ t :: back)) (front.length + below.length) =
      some z := by
    apply load_append
    rw [List.length_append]
    omega
  have hstore : store (front ++ below ++ z :: (mid ++ t :: back)) j z =
      some (front ++ below ++ z :: mid ++ z :: back) := by
    rw [← List.cons_append, ← List.append_assoc]
    apply store_append
    simp only [List.length_append, List.length_cons]
    omega
  rw [List.append_assoc _ (z :: mid), List.cons_append, scanUp_eq hbelow
    (Or.inr ⟨z, _, rfl, hz⟩) (Or.inl (by omega)) hrounds hi, Option.bind_some, moveUp]
  dsimp only
  rw [if_pos (by omega), hload, Option.bind_eq_bind, Option.bind_some, hstore, Option.bind_eq_bind,
    Option.bind_some]
  congr 2
  · omega
  · omega

/-! ## The loop -/

theorem rearrange_stop (hn : 0 < n) (hs : s.j ≤ s.i) : rearrange k n s = some s := by
  obtain ⟨n, rfl⟩ : ∃ n', n = n' + 1 := ⟨n - 1, by omega⟩
  rw [rearrange, if_neg (by omega)]

theorem rearrange_round (hn : 0 < n) (hs : s.i < s.j) :
    rearrange k n s = (round k s).bind (rearrange k (n - 1)) := by
  obtain ⟨n, rfl⟩ : ∃ n', n = n' + 1 := ⟨n - 1, by omega⟩
  rw [rearrange, if_pos hs, Nat.add_sub_cancel]

/-- The loop has ended where it writes the pivot back between `left` and `right`. -/
def Ends (k : ℤ) (n : ℕ) (front mid back left right : List ℤ) : Prop :=
  ∃ s, rearrange k n ⟨front ++ mid ++ back, front.length, front.length + mid.length - 1⟩ = some s ∧
    s.i = front.length + left.length ∧
    store s.arr s.i k = some (front ++ left ++ k :: right ++ back)

/-- One round that comes to its end without a move back. -/
theorem Ends.of_round (hn : mid.length ≤ n) (hmid : 2 ≤ mid.length)
    (hround : round k ⟨front ++ mid ++ back, front.length, front.length + mid.length - 1⟩ = some s)
    (hs : s.j ≤ s.i) (hi : s.i = front.length + left.length)
    (hstore : store s.arr s.i k = some (front ++ left ++ k :: right ++ back)) :
    Ends k n front mid back left right := by
  refine ⟨s, ?_, hi, hstore⟩
  rw [rearrange_round (by omega) (by dsimp only; omega), hround, Option.bind_some]
  exact rearrange_stop (by omega) hs

/-- A round whose first scan stops at `x`. -/
theorem round_move (hx : x ≤ k) (habove : ∀ x ∈ above, k < x) :
    round k ⟨front ++ (y :: mid ++ x :: above) ++ back, front.length,
        front.length + (y :: mid ++ x :: above).length - 1⟩ =
      (scanUp k (Part.rounds ⟨front ++ [x] ++ mid ++ x :: above ++ back, front.length + 1,
          front.length + mid.length⟩)
        ⟨front ++ [x] ++ mid ++ x :: above ++ back, front.length + 1,
          front.length + mid.length⟩).bind moveUp := by
  have harr : front ++ (y :: mid ++ x :: above) ++ back = front ++ y :: mid ++ x :: above ++ back :=
    congrArg (· ++ back) (List.append_assoc front (y :: mid) _).symm
  have hj : (front.length + (y :: mid ++ x :: above).length - 1 : ℤ) =
      front.length + mid.length + 1 + above.length := by
    rw [List.length_append, List.length_cons, List.length_cons]
    omega
  rw [round_eq, harr, descend_move hx habove rfl hj, Option.bind_some, List.append_cons front x]

/-- A round whose second scan stops at `z`, in front of the other index: `x` goes to the front, and
`z` is copied over `t`. -/
theorem round_cross (hbelow : ∀ x ∈ below, x < k) (hz : k ≤ z) (hx : x ≤ k)
    (habove : ∀ x ∈ above, k < x) :
    round k ⟨front ++ (y :: below ++ z :: (mid ++ t :: x :: above)) ++ back, front.length,
        front.length + (y :: below ++ z :: (mid ++ t :: x :: above)).length - 1⟩ =
      some ⟨front ++ [x] ++ below ++ z :: mid ++ z :: (x :: above ++ back),
        front.length + 1 + below.length + 1, front.length + 1 + below.length + mid.length⟩ := by
  have hlength : ((front ++ [x]).length : ℤ) = front.length + 1 := by simp
  have hround := @round_move k x y front above back (below ++ z :: mid ++ [t]) hx habove
  have hup := @ascend_move k z t (front.length + 1)
    (front.length + (below ++ z :: mid ++ [t]).length) (front ++ [x]) below
    (x :: above ++ back) mid hbelow hz hlength.symm
    (by rw [hlength]; simp only [List.length_append, List.length_cons, List.length_nil]; omega)
  have harr : front ++ [x] ++ (below ++ z :: mid ++ [t]) ++ x :: above ++ back =
      front ++ [x] ++ below ++ z :: mid ++ t :: (x :: above ++ back) := by
    simp
  have hmid : y :: (below ++ z :: mid ++ [t]) ++ x :: above =
      y :: below ++ z :: (mid ++ t :: x :: above) := by
    simp
  rw [harr, hup, hmid] at hround
  exact hround

/-- The loop does what `Rearranged` says, by induction on it. -/
theorem Rearranged.run (h : Rearranged k mid left right) (front back : List ℤ)
    (hn : mid.length ≤ n) : Ends k n front mid back left right := by
  induction h generalizing front back n with
  | @stop y above habove =>
    -- nothing is smaller than `k` behind the first place: the scan comes back to it
    have hstore : store (front ++ y :: above ++ back) front.length k =
        some (front ++ [] ++ k :: above ++ back) := by
      rw [List.append_nil, List.append_assoc, List.append_assoc]
      exact store_append rfl
    by_cases hnil : above = []
    · subst hnil
      refine ⟨_, rearrange_stop hn (by dsimp only [List.length_singleton]; omega), ?_, hstore⟩
      exact (Int.add_zero _).symm
    · have hpos : 0 < above.length := List.length_pos_iff.mpr hnil
      have hup := @ascend_stop k front.length front.length front [] (y :: above ++ back)
        (List.forall_mem_nil _) rfl (Or.inl (Int.add_zero _).symm)
      rw [List.append_nil, ← List.append_assoc] at hup
      have hround := round_eq (k := k) (s := ⟨front ++ y :: above ++ back, front.length,
        front.length + (y :: above).length - 1⟩)
      rw [descend_stop habove rfl (by rw [List.length_cons]; omega), Option.bind_some,
        hup] at hround
      refine Ends.of_round hn (by rw [List.length_cons]; omega) hround ?_ ?_ ?_
      · exact Int.le_add_of_nonneg_right (Int.natCast_nonneg _)
      · rfl
      · rw [List.length_nil, Int.natCast_zero, Int.add_zero]
        exact hstore
  | @adjacent y x above hx habove =>
    -- `x` moves to the front, and nothing is left between the two places
    have hlength : ((front ++ [x]).length : ℤ) = front.length + 1 := by simp
    have hround := @round_move k x y front above back [] hx habove
    have hup := @ascend_stop k (front.length + 1) (front.length + ([] : List ℤ).length)
      (front ++ [x]) [] (x :: above ++ back) (List.forall_mem_nil _) hlength.symm
      (Or.inr ⟨rfl, by rw [hlength, List.length_nil]; omega⟩)
    rw [← List.append_assoc] at hup
    rw [hup] at hround
    refine Ends.of_round hn ?_ hround ?_ ?_ ?_
    · rw [List.length_cons, List.length_cons]
      omega
    · dsimp only [List.length_nil]
      omega
    · dsimp only [List.length_nil, List.length_singleton]
      omega
    · apply store_eq_of_append (x := x) (show _ = (front ++ [x]) ++ x :: (above ++ back) by simp)
      · rw [hlength]
        exact Int.add_zero _
      · simp
  | @meet y t x below above hbelow hx habove =>
    -- all in between is below `k`: the second scan runs into the other index
    have hlength : ((front ++ [x]).length : ℤ) = front.length + 1 := by simp
    have hround := @round_move k x y front above back (below ++ [t]) hx habove
    have hup := @ascend_stop k (front.length + 1) (front.length + (below ++ [t]).length)
      (front ++ [x]) below (t :: x :: above ++ back) hbelow hlength.symm
      (Or.inl (by rw [hlength, List.length_append, List.length_singleton]; omega))
    have harr : front ++ [x] ++ (below ++ [t]) ++ x :: above ++ back =
        front ++ [x] ++ below ++ (t :: x :: above ++ back) := by
      simp
    have hmid : y :: (below ++ [t]) ++ x :: above = y :: below ++ t :: x :: above := by simp
    rw [harr, hup, hmid] at hround
    refine Ends.of_round hn ?_ hround ?_ ?_ ?_
    · simp only [List.length_append, List.length_cons]
      omega
    · simp only [List.length_append, List.length_singleton]
      omega
    · dsimp only [List.length_cons]
      omega
    · apply store_eq_of_append (x := t) (show _ = (front ++ x :: below) ++ t :: x ::
        (above ++ back) by simp)
      · dsimp only
        rw [List.length_append, List.length_cons]
        omega
      · simp
  | @cross y z t x below above hbelow hz hx habove =>
    -- the scan stops at `z` and the two indices cross: `z` is there twice
    have hround := @round_cross k x y z t front above below back [] hbelow hz hx habove
    rw [List.nil_append] at hround
    refine Ends.of_round hn ?_ hround ?_ ?_ ?_
    · simp only [List.length_append, List.length_cons]
      omega
    · dsimp only [List.length_nil]
      omega
    · simp only [List.length_append, List.length_cons, List.length_nil]
      omega
    · apply store_eq_of_append (x := z) (show _ = (front ++ x :: below ++ [z]) ++ z :: x ::
        (above ++ back) by simp)
      · simp only [List.length_append, List.length_cons, List.length_nil]
        omega
      · simp
  | @nested y z t x below inner above left right hbelow hz hx habove hinner ih =>
    -- the indices have not met: the next round is that of `inner`
    have hround := @round_cross k x y z t front above below back inner hbelow hz hx habove
    have hsize : inner.length + 2 ≤ (y :: below ++ z :: (inner ++ t :: x :: above)).length := by
      simp only [List.length_append, List.length_cons]
      omega
    obtain ⟨s, hrun, hi, hstore⟩ := @ih (n - 1) (front ++ x :: below ++ [z])
      (z :: x :: above ++ back) (by omega)
    refine ⟨s, ?_, ?_, ?_⟩
    · rw [rearrange_round (by omega) (by dsimp only; omega), hround, Option.bind_some, ← hrun]
      congr 2
      · simp
      · simp only [List.length_append, List.length_cons, List.length_nil]
        omega
      · simp only [List.length_append, List.length_cons, List.length_nil]
        omega
    · rw [hi]
      simp only [List.length_append, List.length_cons, List.length_nil]
      omega
    · rw [hstore]
      simp

/-! ## The split -/

/-- A list ends with its elements above `k` behind the last one that is not. -/
theorem exists_above (k : ℤ) (mid : List ℤ) : ∃ front above, mid = front ++ above ∧
    (∀ x ∈ above, k < x) ∧ (front = [] ∨ ∃ front' x, front = front' ++ [x] ∧ x ≤ k) := by
  induction mid using List.reverseRecOn with
  | nil => exact ⟨[], [], rfl, List.forall_mem_nil _, Or.inl rfl⟩
  | append_singleton mid x ih =>
    by_cases hx : x ≤ k
    · exact ⟨mid ++ [x], [], (List.append_nil _).symm, List.forall_mem_nil _,
        Or.inr ⟨mid, x, rfl, hx⟩⟩
    · obtain ⟨front, above, rfl, habove, hfront⟩ := ih
      refine ⟨front, above ++ [x], List.append_assoc _ _ _, fun v hv => ?_, hfront⟩
      obtain hv | hv := List.mem_append.mp hv
      · exact habove v hv
      · rw [List.mem_singleton.mp hv]
        omega

theorem exists_below (k : ℤ) (mid : List ℤ) : ∃ below rest, mid = below ++ rest ∧
    (∀ x ∈ below, x < k) ∧ (rest = [] ∨ ∃ z rest', rest = z :: rest' ∧ k ≤ z) := by
  induction mid with
  | nil => exact ⟨[], [], rfl, List.forall_mem_nil _, Or.inl rfl⟩
  | cons x mid ih =>
    by_cases hx : k ≤ x
    · exact ⟨[], x :: mid, rfl, List.forall_mem_nil _, Or.inr ⟨x, mid, rfl, hx⟩⟩
    · obtain ⟨below, rest, rfl, hbelow, hrest⟩ := ih
      exact ⟨x :: below, rest, rfl, List.forall_mem_cons.mpr ⟨by omega, hbelow⟩, hrest⟩

/-- Every range comes out in one of the five ways. -/
theorem exists_rearranged (k : ℤ) (hmid : mid ≠ []) :
    ∃ left right, Rearranged k mid left right := by
  induction hlength : mid.length using Nat.strong_induction_on generalizing mid with
  | _ n ih =>
    obtain ⟨y, rest, rfl⟩ := List.exists_cons_of_ne_nil hmid
    obtain ⟨front, above, rfl, habove, rfl | ⟨front, x, rfl, hx⟩⟩ := exists_above k rest
    · exact ⟨_, _, Rearranged.stop habove⟩
    · cases front using List.reverseRecOn with
      | nil => exact ⟨_, _, Rearranged.adjacent hx habove⟩
      | append_singleton front t =>
        obtain ⟨below, rest, rfl, hbelow, rfl | ⟨z, inner, rfl, hz⟩⟩ := exists_below k front
        · refine ⟨x :: below, x :: above, ?_⟩
          have h := Rearranged.meet (y := y) (t := t) hbelow hx habove
          simpa using h
        · by_cases hinner : inner = []
          · subst hinner
            refine ⟨x :: below ++ [z], x :: above, ?_⟩
            have h := Rearranged.cross (y := y) (t := t) hbelow hz hx habove
            simpa using h
          · obtain ⟨left, right, hinner⟩ := ih inner.length (by
              rw [← hlength]
              simp only [List.length_append, List.length_cons]
              omega) hinner rfl
            refine ⟨x :: below ++ z :: left, right ++ z :: x :: above, ?_⟩
            have h := Rearranged.nested (y := y) (t := t) hbelow hz hx habove hinner
            simpa using h

/-- There is one way, as the loop makes it. -/
theorem Rearranged.unique (h : Rearranged k mid left right) (h' : Rearranged k mid left' right') :
    left = left' ∧ right = right' := by
  obtain ⟨s, hrun, hi, hstore⟩ := h.run [] [] le_rfl
  obtain ⟨s', hrun', hi', hstore'⟩ := h'.run [] [] le_rfl
  obtain rfl := Option.some.inj (hrun.symm.trans hrun')
  have heq := Option.some.inj (hstore.symm.trans hstore')
  rw [List.nil_append, List.nil_append, List.append_nil, List.append_nil] at heq
  obtain ⟨hleft, hright⟩ := List.append_inj heq (by omega)
  exact ⟨hleft, List.tail_eq_of_cons_eq hright⟩

/-- No copy of the pivot is lost where the elements come to the right sides. -/
theorem Rearranged.count_le (h : Rearranged k mid left right) (hleft : ∀ x ∈ left, x ≤ k)
    (hright : ∀ x ∈ right, k ≤ x) : mid.count k ≤ (left ++ k :: right).count k := by
  induction h with
  | @stop y above habove =>
    rw [List.nil_append, List.count_cons_self, List.count_cons]
    split <;> omega
  | @adjacent y x above hx habove =>
    simp only [List.count_append, List.count_cons, List.count_nil, beq_self_eq_true, if_true]
    split_ifs <;> omega
  | @meet y t x below above hbelow hx habove =>
    obtain rfl : x = k := Int.le_antisymm hx (hright x List.mem_cons_self)
    simp only [List.count_append, List.count_cons, beq_self_eq_true, if_true]
    split_ifs <;> omega
  | @cross y z t x below above hbelow hz hx habove =>
    obtain rfl : x = k := Int.le_antisymm hx (hright x List.mem_cons_self)
    simp only [List.count_append, List.count_cons, List.count_nil, beq_self_eq_true, if_true]
    split_ifs <;> omega
  | @nested y z t x below inner above left right hbelow hz hx habove hinner ih =>
    have hx' : k ≤ x := hright x (by simp)
    have hz' : z ≤ k := hleft z (by simp)
    obtain rfl : x = k := Int.le_antisymm hx hx'
    obtain rfl : z = x := Int.le_antisymm hz' hz
    have hle := ih (fun v hv => hleft v (by simp [hv])) fun v hv => hright v (by simp [hv])
    simp only [List.count_append, List.count_cons, beq_self_eq_true, if_true] at hle ⊢
    split_ifs <;> omega

/-- What is split has been written over with the pivot only. -/
theorem Rearranged.settled (h : Rearranged k mid left right) (hsplits : Splits k mid left right) :
    Settled k mid := by
  induction h with
  | @stop y above habove =>
    have hcount := hsplits.perm.count_eq k
    simp only [List.nil_append, List.count_cons, beq_iff_eq, if_true] at hcount
    obtain rfl : y = k := by
      by_contra hy
      split_ifs at hcount
      omega
    exact .stop habove
  | @adjacent y x above hx habove =>
    have hcount := hsplits.perm.count_eq k
    simp only [List.count_append, List.count_cons, List.count_nil, beq_iff_eq, if_true] at hcount
    obtain rfl : y = k := by
      by_contra hy
      split_ifs at hcount <;> omega
    exact .adjacent hx habove
  | @meet y t x below above hbelow hx habove =>
    obtain rfl : x = k := Int.le_antisymm hx (hsplits.le_right x List.mem_cons_self)
    have hcount := hsplits.perm.count_eq x
    simp only [List.count_append, List.count_cons, beq_iff_eq, if_true] at hcount
    obtain ⟨rfl, rfl⟩ : y = x ∧ t = x := by
      by_contra hne
      split_ifs at hcount <;> omega
    exact .meet hbelow habove
  | @cross y z t x below above hbelow hz hx habove =>
    obtain rfl : x = k := Int.le_antisymm hx (hsplits.le_right x List.mem_cons_self)
    obtain rfl : z = x := Int.le_antisymm (hsplits.left_le z (by simp)) hz
    have hcount := hsplits.perm.count_eq z
    simp only [List.count_append, List.count_cons, List.count_nil, beq_iff_eq, if_true] at hcount
    obtain ⟨rfl, rfl⟩ : y = z ∧ t = z := by
      by_contra hne
      split_ifs at hcount <;> omega
    exact .cross hbelow habove
  | @nested y z t x below inner above left right hbelow hz hx habove hinner ih =>
    obtain rfl : x = k := Int.le_antisymm hx (hsplits.le_right x (by simp))
    obtain rfl : z = x := Int.le_antisymm (hsplits.left_le z (by simp)) hz
    have hleft : ∀ x ∈ left, x ≤ z := fun x hx => hsplits.left_le x (by simp [hx])
    have hright : ∀ x ∈ right, z ≤ x := fun x hx => hsplits.le_right x (by simp [hx])
    -- The range inside has not lost the pivot, so that both ends of it were pivots.
    have hcount := hsplits.perm.count_eq z
    have hle := hinner.count_le hleft hright
    simp only [List.count_append, List.count_cons, beq_iff_eq, if_true] at hcount hle
    obtain ⟨rfl, rfl⟩ : y = z ∧ t = z := by
      by_contra hne
      split_ifs at hcount <;> omega
    refine .nested hbelow habove (ih ⟨hleft, hright, List.perm_iff_count.mpr fun v => ?_⟩)
    have hcount := hsplits.perm.count_eq v
    simp only [List.count_append, List.count_cons] at hcount ⊢
    omega

/-- A settled range is split. -/
theorem Settled.splits (h : Settled k mid) :
    ∃ left right, Rearranged k mid left right ∧ Splits k mid left right := by
  have hself := Int.le_refl k
  have hle_of_below : ∀ below : List ℤ, (∀ x ∈ below, x < k) → ∀ x ∈ below, x ≤ k :=
    fun _ hbelow x hx => Int.le_of_lt (hbelow x hx)
  have hle_of_above : ∀ above : List ℤ, (∀ x ∈ above, k < x) → ∀ x ∈ above, k ≤ x :=
    fun _ habove x hx => Int.le_of_lt (habove x hx)
  induction h with
  | @stop above habove =>
    exact ⟨[], above, .stop habove, List.forall_mem_nil _, hle_of_above above habove,
      List.Perm.refl _⟩
  | @adjacent x above hx habove =>
    refine ⟨[x], above, .adjacent hx habove, ?_, hle_of_above above habove, List.Perm.swap _ _ _⟩
    exact List.forall_mem_singleton.mpr hx
  | @meet below above hbelow habove =>
    refine ⟨_, _, .meet hbelow hself habove, ?_, ?_, List.Perm.refl _⟩
    · exact List.forall_mem_cons.mpr ⟨hself, hle_of_below below hbelow⟩
    · exact List.forall_mem_cons.mpr ⟨hself, hle_of_above above habove⟩
  | @cross below above hbelow habove =>
    refine ⟨_, _, .cross hbelow hself hself habove, ?_, ?_, ?_⟩
    · rw [List.forall_mem_append, List.forall_mem_cons, List.forall_mem_singleton]
      exact ⟨⟨hself, hle_of_below below hbelow⟩, hself⟩
    · exact List.forall_mem_cons.mpr ⟨hself, hle_of_above above habove⟩
    · rw [List.append_assoc, List.singleton_append]
  | @nested below inner above hbelow habove hinner ih =>
    obtain ⟨left, right, hrun, hleft, hright, hperm⟩ := ih
    refine ⟨_, _, .nested hbelow hself hself habove hrun, ?_, ?_, ?_⟩
    · rw [List.forall_mem_append, List.forall_mem_cons, List.forall_mem_cons]
      exact ⟨⟨hself, hle_of_below below hbelow⟩, hself, hleft⟩
    · rw [List.forall_mem_append, List.forall_mem_cons, List.forall_mem_cons]
      exact ⟨hright, hself, hself, hle_of_above above habove⟩
    · refine List.perm_iff_count.mpr fun v => ?_
      have hcount := hperm.count_eq v
      simp only [List.count_append, List.count_cons] at hcount ⊢
      omega

theorem Rearranged.splits_iff (h : Rearranged k mid left right) :
    Splits k mid left right ↔ Settled k mid := by
  refine ⟨h.settled, fun hsettled => ?_⟩
  obtain ⟨left', right', h', hsplits⟩ := hsettled.splits
  obtain ⟨rfl, rfl⟩ := h.unique h'
  exact hsplits

theorem Rearranged.length_eq (h : Rearranged k mid left right) :
    mid.length = left.length + right.length + 1 := by
  induction h with
  | stop | adjacent | meet | cross =>
    simp only [List.length_append, List.length_cons, List.length_nil]
    omega
  | nested hbelow hz hx habove hinner ih =>
    simp only [List.length_append, List.length_cons]
    omega

/-! ## The function -/

/-- The part of the vector that a call is about. -/
theorem exists_range {arr : List ℤ} (hi : 0 ≤ i) (hij : i ≤ j) (hj : j < arr.length) :
    ∃ front y mid back, arr = front ++ (y :: mid) ++ back ∧ i = front.length ∧
      j = front.length + mid.length := by
  obtain ⟨a, rfl⟩ := Int.eq_ofNat_of_zero_le hi
  obtain ⟨m, rfl⟩ := Int.eq_ofNat_of_zero_le (Int.le_trans hi hij)
  have hrange : (arr.drop a).take (m - a + 1) ≠ [] := by
    intro hnil
    have hlength := congrArg List.length hnil
    rw [List.length_take, List.length_drop, List.length_nil] at hlength
    omega
  obtain ⟨y, mid, hmid⟩ := List.exists_cons_of_ne_nil hrange
  have hlength := congrArg List.length hmid
  rw [List.length_take, List.length_drop, List.length_cons] at hlength
  refine ⟨arr.take a, y, mid, (arr.drop a).drop (m - a + 1), ?_, ?_, ?_⟩
  · rw [← hmid, List.append_assoc, List.take_append_drop, List.take_append_drop]
  · rw [List.length_take]
    omega
  · rw [List.length_take]
    omega

theorem slice_append (hi : i = front.length) (hj : j = front.length + mid.length) :
    slice (front ++ mid ++ back) i j = mid := by
  have hdrop : i.toNat = front.length := by omega
  have htake : (j - i).toNat = mid.length := by omega
  rw [slice, hdrop, htake, List.append_assoc, List.drop_left, List.take_left]

/-- The pivot goes between the two sides. -/
theorem partation_eq (h : Rearranged y (y :: mid) left right) (hi : i = front.length)
    (hj : j = front.length + mid.length) :
    partation (front ++ (y :: mid) ++ back) i j =
      some (front ++ left ++ y :: right ++ back, (front.length + left.length : ℤ)) := by
  have hload : load (front ++ (y :: mid) ++ back) i = some y := by
    rw [List.append_assoc, List.cons_append]
    exact load_append hi
  have hrounds : (y :: mid).length ≤ Part.rounds ⟨front ++ (y :: mid) ++ back, i, j⟩ := by
    rw [List.length_cons]
    simp only [Part.rounds]
    omega
  obtain ⟨s, hrun, hpos, hstore⟩ := h.run front back hrounds
  have hlast : j = front.length + (y :: mid).length - 1 := by
    rw [List.length_cons]
    omega
  rw [← hlast, ← hi] at hrun
  rw [partation, hload, Option.bind_eq_bind, Option.bind_some, hrun, Option.bind_eq_bind,
    Option.bind_some, hstore, Option.bind_eq_bind, Option.bind_some, hpos]

theorem load_outside (hmid : mid.length = inner.length) {q : ℤ}
    (hq : q < front.length ∨ front.length + mid.length ≤ q) :
    load (front ++ mid ++ back) q = load (front ++ inner ++ back) q := by
  unfold load
  split
  · obtain hq | hq := hq
    · rw [List.append_assoc, List.append_assoc, List.getElem?_append_left (by omega),
        List.getElem?_append_left (by omega)]
    · have hle : (front ++ mid).length ≤ q.toNat := by
        rw [List.length_append]
        omega
      have hlength : (front ++ inner).length = (front ++ mid).length := by
        rw [List.length_append, List.length_append, hmid]
      rw [List.getElem?_append_right hle, List.getElem?_append_right (hlength ▸ hle), hlength]
  · rfl

theorem partitioned_iff (hlength : (y :: mid).length = left.length + right.length + 1)
    (hi : i = front.length) (hj : j = front.length + mid.length) :
    Partitioned (front ++ (y :: mid) ++ back) i j (front ++ left ++ y :: right ++ back)
      (front.length + left.length) ↔ Splits y (y :: mid) left right := by
  rw [List.length_cons] at hlength
  -- what the array holds at the pivot and in the three parts, before and after
  have hload : load (front ++ (y :: mid) ++ back) i = some y := by
    rw [List.append_assoc, List.cons_append]
    exact load_append hi
  have hpivot : load (front ++ left ++ y :: right ++ back) (front.length + left.length) =
      some y := by
    rw [List.append_assoc _ (y :: right), List.cons_append]
    apply load_append
    rw [List.length_append]
    omega
  have hmid : slice (front ++ (y :: mid) ++ back) i (j + 1) = y :: mid :=
    slice_append hi (by rw [List.length_cons]; omega)
  have hall : slice (front ++ left ++ y :: right ++ back) i (j + 1) = left ++ y :: right := by
    rw [List.append_assoc front]
    apply slice_append hi
    rw [List.length_append, List.length_cons]
    omega
  have hleft : slice (front ++ left ++ y :: right ++ back) i (front.length + left.length) =
      left := by
    rw [List.append_assoc _ (y :: right)]
    exact slice_append hi rfl
  have hright : slice (front ++ left ++ y :: right ++ back) (front.length + left.length + 1)
      (j + 1) = right := by
    rw [List.append_cons _ y]
    apply slice_append
    · simp only [List.length_append, List.length_singleton]
      omega
    · simp only [List.length_append, List.length_singleton]
      omega
  constructor
  · intro h
    refine ⟨?_, ?_, ?_⟩
    · rw [← hleft]
      exact h.below y hload
    · rw [← hright]
      exact h.above y hload
    · rw [← hall, ← hmid]
      exact h.perm
  · rintro ⟨hle, hge, hperm⟩
    have hy : ∀ k ∈ load (front ++ (y :: mid) ++ back) i, k = y := by
      intro k hk
      exact Option.some.inj (hk.symm.trans hload)
    refine ⟨by omega, by omega, hpivot.trans hload.symm, ?_, ?_, ?_, ?_⟩
    · rwa [hall, hmid]
    · intro k hk
      rw [hleft, hy k hk]
      exact hle
    · intro k hk
      rw [hright, hy k hk]
      exact hge
    · -- outside of the range nothing changes
      intro q hq
      rw [List.append_assoc front]
      apply load_outside
      · rw [List.length_append, List.length_cons, List.length_cons]
        omega
      · rw [List.length_append, List.length_cons]
        omega

/-- **`partation` partitions a range exactly if it is settled.** -/
theorem partation_partitions_iff {arr : List ℤ} (hi : 0 ≤ i) (hij : i ≤ j) (hj : j < arr.length) :
    ∃ k arr' p, load arr i = some k ∧ partation arr i j = some (arr', p) ∧
      (Partitioned arr i j arr' p ↔ Settled k (slice arr i (j + 1))) := by
  obtain ⟨front, y, mid, back, rfl, hfront, hmid⟩ := exists_range hi hij hj
  obtain ⟨left, right, h⟩ := exists_rearranged y (List.cons_ne_nil y mid)
  refine ⟨y, _, _, ?_, partation_eq h hfront hmid, ?_⟩
  · rw [List.append_assoc, List.cons_append]
    exact load_append hfront
  · rw [slice_append hfront (by rw [List.length_cons]; omega), ← h.splits_iff]
    exact partitioned_iff h.length_eq hfront hmid

theorem partation_partitions_iff_adjacent :
    ∃ arr' p, partation [2, 1, 3] 0 2 = some (arr', p) ∧ Partitioned [2, 1, 3] 0 2 arr' p := by
  obtain ⟨k, arr', p, hload, hcall, hiff⟩ :=
    @partation_partitions_iff 0 2 [2, 1, 3] (by decide) (by decide) (by decide)
  obtain rfl : 2 = k := Option.some.inj hload
  exact ⟨arr', p, hcall, hiff.mpr (.adjacent (by decide) (by decide))⟩

/-- The 1 is moved to the front, and then the pivot is written over the 0. -/
theorem partation_loses_element :
    partation [2, 0, 1] 0 2 = some ([1, 2, 1], 1) ∧ ¬ Partitioned [2, 0, 1] 0 2 [1, 2, 1] 1 := by
  refine ⟨by decide, fun h => ?_⟩
  have hcount := h.perm.count_eq 0
  exact absurd hcount (by decide)

end CppInOne.Algorithm.TopK
