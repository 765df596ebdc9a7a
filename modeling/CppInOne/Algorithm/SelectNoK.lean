import CppInOne.Algorithm.Partation
import CppInOne.Lib.OrderStatistic

/-!
# Quick selection without the rearrangement

`partation` works on a copy, so that `selectNoK` splits ranges of the vector as it was given. The
ranges that can come up are the pieces into which the vector is cut, and where a piece is cut is a
matter of its values. The search goes down to the piece that is cut at `k`, unless it meets a piece
that is cut at `k - 1` before: then it takes the wrong side and never ends.

## Main definitions

- `CutAfter` — where a range is cut, by its values
- `Piece` — the ranges that the search can come to
- `CutBehind` — a piece with both `k - 1` and `k` is cut at `k`
- `InPlace` — the vector has the right element at `k` from the start

## Main results

- `cuts_iff` — `partation` returns the position of the cut
- `selectNoK_holds` — the search stays in bounds, and ends only at `k`
- `selectNoK_selects_iff` — when it returns the position of the right element
-/

namespace CppInOne.Algorithm.TopK

open Loop OrderStatistic

/-- So many elements of a range are in front of its cut with the pivot `k`: elements above `k` at
the end of the range and elements below it from the second on are passed over, and what is left in
between is cut in the same way. -/
inductive CutAfter (k : ℤ) : List ℤ → ℕ → Prop
  | stop {y : ℤ} {above : List ℤ} (habove : ∀ x ∈ above, k < x) : CutAfter k (y :: above) 0
  | adjacent {y x : ℤ} {above : List ℤ} (hx : x ≤ k) (habove : ∀ x ∈ above, k < x) :
      CutAfter k (y :: x :: above) 1
  | meet {y t x : ℤ} {below above : List ℤ} (hbelow : ∀ x ∈ below, x < k) (hx : x ≤ k)
      (habove : ∀ x ∈ above, k < x) :
      CutAfter k (y :: below ++ t :: x :: above) (below.length + 1)
  | cross {y z t x : ℤ} {below above : List ℤ} (hbelow : ∀ x ∈ below, x < k) (hz : k ≤ z)
      (hx : x ≤ k) (habove : ∀ x ∈ above, k < x) :
      CutAfter k (y :: below ++ z :: t :: x :: above) (below.length + 2)
  | nested {y z t x : ℤ} {below inner above : List ℤ} {n : ℕ} (hbelow : ∀ x ∈ below, x < k)
      (hz : k ≤ z) (hx : x ≤ k) (habove : ∀ x ∈ above, k < x) (hinner : CutAfter k inner n) :
      CutAfter k (y :: below ++ z :: (inner ++ t :: x :: above)) (below.length + 2 + n)

/-- The range from `i` to `j` is cut at `p`, with its first element as the pivot. -/
def Cuts (vec : List ℤ) (i j p : ℤ) : Prop :=
  ∃ k mid n, slice vec i (j + 1) = k :: mid ∧ CutAfter k (k :: mid) n ∧ p = i + n

/-- A range of the vector that is left when it is split again and again. -/
inductive Piece (vec : List ℤ) : ℤ → ℤ → Prop
  | whole : Piece vec 0 (lastIndex vec)
  | left {i j p : ℤ} (h : Piece vec i j) (hij : i ≤ j) (hcut : Cuts vec i j p) : Piece vec i (p - 1)
  | right {i j p : ℤ} (h : Piece vec i j) (hij : i ≤ j) (hcut : Cuts vec i j p) :
      Piece vec (p + 1) j

/-- The piece that is cut at `k` reaches back to `k - 1`. -/
def CutBehind (vec : List ℤ) (k : ℤ) : Prop :=
  k = 0 ∨ ∃ i j, Piece vec i j ∧ i ≤ k - 1 ∧ k ≤ j ∧ Cuts vec i j k

/-- At most `k` elements are below the one at `k`, and more than `k` are not above it. -/
def InPlace (vec : List ℤ) (k : ℤ) : Prop :=
  ∃ x ∈ load vec k, vec.countP (· < x) ≤ k ∧ k < vec.countP (· ≤ x)

variable {vec : List ℤ} {i j k p p' : ℤ} {s : Selection}

theorem lastIndex_lt : lastIndex vec < vec.length := by
  unfold lastIndex Int.bmod
  dsimp only
  split <;> omega

/-! ## The cuts -/

theorem Rearranged.cutAfter {mid left right : List ℤ} (h : Rearranged k mid left right) :
    CutAfter k mid left.length := by
  induction h with
  | stop habove => exact .stop habove
  | adjacent hx habove => exact .adjacent hx habove
  | meet hbelow hx habove => exact .meet hbelow hx habove
  | @cross y z t x below above hbelow hz hx habove =>
    have hcut := CutAfter.cross (y := y) (t := t) hbelow hz hx habove
    simpa using hcut
  | @nested y z t x below inner above left right hbelow hz hx habove hinner ih =>
    have hcut := CutAfter.nested (y := y) (t := t) hbelow hz hx habove ih
    simpa [Nat.add_assoc, Nat.add_comm, Nat.add_left_comm] using hcut

theorem CutAfter.rearranged {mid : List ℤ} {n : ℕ} (h : CutAfter k mid n) :
    ∃ left right, Rearranged k mid left right ∧ left.length = n := by
  induction h with
  | stop habove => exact ⟨_, _, .stop habove, rfl⟩
  | adjacent hx habove => exact ⟨_, _, .adjacent hx habove, rfl⟩
  | meet hbelow hx habove => exact ⟨_, _, .meet hbelow hx habove, rfl⟩
  | cross hbelow hz hx habove => exact ⟨_, _, .cross hbelow hz hx habove, by simp⟩
  | nested hbelow hz hx habove hinner ih =>
    obtain ⟨left, right, hrun, rfl⟩ := ih
    refine ⟨_, _, .nested hbelow hz hx habove hrun, ?_⟩
    simp only [List.length_append, List.length_cons]
    omega

/-- Every range that is not empty is cut somewhere in it. -/
theorem exists_cuts (hi : 0 ≤ i) (hij : i ≤ j) (hj : j < vec.length) :
    ∃ p arr', Cuts vec i j p ∧ partation vec i j = some (arr', p) ∧ i ≤ p ∧ p ≤ j := by
  obtain ⟨front, y, mid, back, rfl, hfront, hmid⟩ := exists_range hi hij hj
  obtain ⟨left, right, h⟩ := exists_rearranged y (List.cons_ne_nil y mid)
  have hlength := h.length_eq
  rw [List.length_cons] at hlength
  refine ⟨_, _, ⟨y, mid, left.length, ?_, h.cutAfter, ?_⟩, partation_eq h hfront hmid, ?_, ?_⟩
  · exact slice_append hfront (by rw [List.length_cons]; omega)
  · rw [hfront]
  · omega
  · omega

theorem Cuts.unique (h : Cuts vec i j p) (h' : Cuts vec i j p') : p = p' := by
  obtain ⟨k, mid, n, hslice, hcut, rfl⟩ := h
  obtain ⟨k', mid', n', hslice', hcut', rfl⟩ := h'
  obtain ⟨rfl, rfl⟩ := List.cons.inj (hslice.symm.trans hslice')
  obtain ⟨left, right, hrun, rfl⟩ := hcut.rearranged
  obtain ⟨left', right', hrun', rfl⟩ := hcut'.rearranged
  rw [(hrun.unique hrun').1]

/-- **`partation` returns the position of the cut.** -/
theorem cuts_iff (hi : 0 ≤ i) (hij : i ≤ j) (hj : j < vec.length) :
    Cuts vec i j p ↔ ∃ arr', partation vec i j = some (arr', p) := by
  obtain ⟨p', arr', hcut, hcall, -⟩ := exists_cuts hi hij hj
  constructor
  · intro h
    rw [h.unique hcut]
    exact ⟨arr', hcall⟩
  · rintro ⟨arr, h⟩
    obtain rfl : p' = p := congrArg Prod.snd (Option.some.inj (hcall.symm.trans h))
    exact hcut

theorem Cuts.bounds (h : Cuts vec i j p) (hi : 0 ≤ i) (hij : i ≤ j) (hj : j < vec.length) :
    i ≤ p ∧ p ≤ j := by
  obtain ⟨p', arr', hcut, -, hbounds⟩ := exists_cuts hi hij hj
  rwa [h.unique hcut]

/-- A range is cut inside, and an empty one at its beginning. -/
theorem exists_partation (hi : 0 ≤ i) (hi' : i < vec.length) (hj : j < vec.length) :
    ∃ arr' p, partation vec i j = some (arr', p) ∧ i ≤ p ∧ p ≤ max i j ∧
      (i ≤ j → Cuts vec i j p) := by
  obtain hij | hji := le_or_gt i j
  · obtain ⟨p, arr', hcut, hcall, hle, hge⟩ := exists_cuts hi hij hj
    exact ⟨arr', p, hcall, hle, by omega, fun _ => hcut⟩
  · obtain ⟨x, hx⟩ := exists_load hi hi'
    have hloop : rearrange x (Part.rounds ⟨vec, i, j⟩) ⟨vec, i, j⟩ = some ⟨vec, i, j⟩ :=
      rearrange_stop (Nat.succ_pos _) (Int.le_of_lt hji)
    refine ⟨vec.set i.toNat x, i, ?_, le_rfl, le_max_left i j, fun hij => by omega⟩
    rw [partation, hx, Option.bind_eq_bind, Option.bind_some, hloop, Option.bind_eq_bind,
      Option.bind_some, store, if_pos ⟨hi, hi'⟩, Option.bind_eq_bind, Option.bind_some]

theorem selectCall_eq {arr' : List ℤ} (h : partation vec s.i s.j = some (arr', p)) :
    selectCall vec k s =
      if p = k then .done ⟨s.i, s.j, p⟩
      else if p < k - 1 then .next ⟨p + 1, s.j, p⟩
      else .next ⟨s.i, p - 1, p⟩ := by
  rw [selectCall, h]

/-! ## What the search keeps -/

/-- The range of a call, as long as it is not empty, is a piece that begins before `k`. -/
structure Searches (vec : List ℤ) (k : ℤ) (s : Selection) : Prop where
  nonneg : 0 ≤ s.i
  first : s.i ≤ k
  last : s.j < vec.length
  before : k = 0 ∨ s.i ≤ k - 1
  piece : s.i ≤ s.j → Piece vec s.i s.j

theorem Searches.call (h : Searches vec k s) (hk : k < vec.length) :
    (selectCall vec k s).Holds (Searches vec k) fun s' => s'.pos = k ∧ CutBehind vec k := by
  have hfirst := h.first
  have hlast := h.last
  obtain ⟨arr', p, hcall, hle, hlt, hcut⟩ := exists_partation h.nonneg (by omega) h.last
  rw [selectCall_eq hcall]
  split_ifs with heq hless
  · subst heq
    refine ⟨rfl, h.before.imp_right fun hbefore => ?_⟩
    have hij : s.i ≤ s.j := by omega
    exact ⟨s.i, s.j, h.piece hij, hbefore, by omega, hcut hij⟩
  · refine ⟨?_, ?_, hlast, Or.inr ?_, fun hle' => ?_⟩
    · have hnonneg := h.nonneg
      dsimp only
      omega
    · dsimp only
      omega
    · dsimp only
      omega
    · have hij : s.i ≤ s.j := by
        dsimp only at hle'
        omega
      exact (h.piece hij).right hij (hcut hij)
  · refine ⟨h.nonneg, hfirst, ?_, h.before, fun hle' => ?_⟩
    · dsimp only
      omega
    · have hij : s.i ≤ s.j := by
        dsimp only at hle'
        omega
      exact (h.piece hij).left hij (hcut hij)

/-- The search stays inside of the vector, and when it ends, then at `k`. -/
theorem selectNoK_holds (hk : 0 ≤ k) (hk' : k < vec.length) (calls : ℕ) :
    (selectNoK vec 0 (lastIndex vec) k calls).Holds (Searches vec k)
      fun s => s.pos = k ∧ CutBehind vec k := by
  apply Round.Holds.loop (fun s hs => hs.call hk')
  exact ⟨le_rfl, hk, lastIndex_lt, by dsimp only; omega, fun _ => .whole⟩

/-! ## How the search ends -/

theorem Piece.bounds (h : Piece vec i j) : 0 ≤ i ∧ j < vec.length := by
  induction h with
  | whole => exact ⟨le_rfl, lastIndex_lt⟩
  | left h hij hcut ih | right h hij hcut ih =>
    have hp := hcut.bounds ih.1 hij ih.2
    omega

/-- The search for `k` comes to every piece with `k - 1` and `k` in it. -/
theorem Piece.reached (h : Piece vec i j) (hi : i ≤ k - 1) (hj : k ≤ j) :
    ∃ n pos, ∀ m, selectNoK vec 0 (lastIndex vec) k (n + m) =
      loop (selectCall vec k) m ⟨i, j, pos⟩ := by
  induction h with
  | whole => exact ⟨0, 0, fun m => by rw [Nat.zero_add, selectNoK]⟩
  | @left i j p h hij hcut ih =>
    have hp := hcut.bounds h.bounds.1 hij h.bounds.2
    obtain ⟨arr', hcall⟩ := (cuts_iff h.bounds.1 hij h.bounds.2).mp hcut
    obtain ⟨n, pos, hreached⟩ := ih hi (by omega)
    refine ⟨n + 1, p, fun m => ?_⟩
    rw [Nat.add_right_comm, Nat.add_assoc, hreached, loop, selectCall_eq hcall, if_neg (by omega),
      if_neg (by omega), Round.next_bind]
  | @right i j p h hij hcut ih =>
    have hp := hcut.bounds h.bounds.1 hij h.bounds.2
    obtain ⟨arr', hcall⟩ := (cuts_iff h.bounds.1 hij h.bounds.2).mp hcut
    obtain ⟨n, pos, hreached⟩ := ih (by omega) hj
    refine ⟨n + 1, p, fun m => ?_⟩
    rw [Nat.add_right_comm, Nat.add_assoc, hreached, loop, selectCall_eq hcall, if_neg (by omega),
      if_pos (by omega), Round.next_bind]

/-- For the first element the search always takes the left side. -/
theorem returns_zero (hvec : vec ≠ []) : ∃ s, Returns (selectNoK vec 0 (lastIndex vec) 0) s := by
  have hround : ∀ (_ : Unit) (s : Selection), (s.i = 0 ∧ s.j < vec.length) →
      (selectCall vec 0 s).Holds (fun s' : Selection => ∃ _ : Unit,
        (s'.i = 0 ∧ s'.j < vec.length) ∧ (s'.j + 1).toNat < (s.j + 1).toNat) fun _ => True := by
    rintro - s ⟨hi, hj⟩
    have hpos := List.length_pos_iff.mpr hvec
    obtain ⟨arr', p, hcall, hle, hlt, -⟩ :=
      exists_partation (i := s.i) (j := s.j) (by omega) (by omega) hj
    rw [selectCall_eq hcall]
    split_ifs with heq hless
    · trivial
    · omega
    · refine ⟨(), ⟨hi, ?_⟩, ?_⟩
      · dsimp only
        omega
      · dsimp only
        omega
  obtain ⟨s, hs, -⟩ := loop_returns (fun (_ : Unit) (s : Selection) => (s.j + 1).toNat) hround
    (t := ()) (s := ⟨0, lastIndex vec, 0⟩) ⟨rfl, lastIndex_lt⟩
  exact ⟨s, hs⟩

theorem returns_of_cutBehind (hvec : vec ≠ []) (h : CutBehind vec k) :
    ∃ s, Returns (selectNoK vec 0 (lastIndex vec) k) s := by
  obtain rfl | ⟨i, j, hpiece, hi, hj, hcut⟩ := h
  · exact returns_zero hvec
  · obtain ⟨n, pos, hreached⟩ := hpiece.reached hi hj
    obtain ⟨arr', hcall⟩ := (cuts_iff hpiece.bounds.1 (by omega) hpiece.bounds.2).mp hcut
    refine ⟨⟨i, j, k⟩, returns_of_loop (n := n + 1) ?_⟩
    rw [← selectNoK, hreached, loop, selectCall_eq hcall, if_pos rfl]
    rfl

/-- What has to stand at `k`. -/
theorem inPlace_iff (hk : 0 ≤ k) (hk' : k < vec.length) :
    load vec k = (vec.mergeSort (· ≤ ·))[k.toNat]? ↔ InPlace vec k := by
  obtain ⟨x, hx⟩ := exists_load hk hk'
  rw [hx, eq_comm, mergeSort_getElem?_eq_some_iff]
  constructor
  · rintro ⟨hle, hlt⟩
    exact ⟨x, hx, by omega, by omega⟩
  · rintro ⟨x', hx', hle, hlt⟩
    obtain rfl := Option.some.inj (hx.symm.trans hx')
    exact ⟨by omega, by omega⟩

/-- **The selection is right exactly** where the element is in place and the cut at `k` comes first:
the position that is returned is always `k`. -/
theorem selectNoK_selects_iff (hk : 0 ≤ k) (hk' : k < vec.length) :
    (∃ s, Returns (selectNoK vec 0 (lastIndex vec) k) s ∧
      load vec s.pos = (vec.mergeSort (· ≤ ·))[k.toNat]?) ↔
        InPlace vec k ∧ CutBehind vec k := by
  have hvec : vec ≠ [] := by
    rintro rfl
    rw [List.length_nil] at hk'
    omega
  constructor
  · rintro ⟨s, ⟨n, hn⟩, hload⟩
    have hdone := selectNoK_holds hk hk' n
    rw [hn n le_rfl] at hdone
    obtain ⟨hpos, hcut⟩ := hdone
    rw [hpos] at hload
    exact ⟨(inPlace_iff hk hk').mp hload, hcut⟩
  · rintro ⟨hplace, hcut⟩
    obtain ⟨s, hreturns⟩ := returns_of_cutBehind hvec hcut
    obtain ⟨n, hn⟩ := hreturns
    have hdone := selectNoK_holds hk hk' n
    rw [hn n le_rfl] at hdone
    refine ⟨s, ⟨n, hn⟩, ?_⟩
    rw [hdone.1]
    exact (inPlace_iff hk hk').mpr hplace

theorem selectNoK_selects_iff_equal :
    ∃ s, Returns (selectNoK [1, 1] 0 (lastIndex [1, 1]) 1) s ∧
      load [1, 1] s.pos = ([1, 1].mergeSort (· ≤ ·))[(1 : ℤ).toNat]? := by
  apply (selectNoK_selects_iff (k := 1) (by decide) (by decide)).mpr
  refine ⟨⟨1, rfl, by decide, by decide⟩, Or.inr ⟨0, 1, .whole, by decide, by decide, ?_⟩⟩
  exact ⟨1, [1], 1, rfl, .adjacent le_rfl (List.forall_mem_nil _), rfl⟩

/-- Two elements in the wrong order stay so, and with two in the right order the second one is never
found. -/
theorem selectNoK_fails :
    (selectNoK [1, 0] 0 (lastIndex [1, 0]) 0 2 = .done ⟨0, 0, 0⟩ ∧ load [1, 0] 0 = some 1 ∧
      (([1, 0] : List ℤ).mergeSort (· ≤ ·))[0]? = some 0) ∧
    ∀ s, ¬ Returns (selectNoK [0, 1] 0 (lastIndex [0, 1]) 1) s := by
  refine ⟨⟨by decide, by decide, ?_⟩, ?_⟩
  · exact mergeSort_getElem?_eq_some_iff.mpr (by decide)
  · have hcall : selectCall [0, 1] 1 ⟨0, -1, 0⟩ = .next ⟨0, -1, 0⟩ := by decide
    have hloop : ∀ n, loop (selectCall [0, 1] 1) n ⟨0, -1, 0⟩ = .next ⟨0, -1, 0⟩ := by
      intro n
      induction n with
      | zero => rfl
      | succ n ih => rw [loop, hcall, Round.next_bind, ih]
    rintro s ⟨n, hn⟩
    have hdone := hn (n + 1) (Nat.le_succ n)
    have hfirst : selectCall [0, 1] 1 ⟨0, lastIndex [0, 1], 0⟩ = .next ⟨0, -1, 0⟩ := by decide
    rw [selectNoK, loop, hfirst, Round.next_bind, hloop] at hdone
    cases hdone

end CppInOne.Algorithm.TopK
