import CppInOne.Algorithm.Bfs

/-!
# The path that `bfs.cpp` shows

`showMazePath` goes back from the exit through the table of predecessors. When the table is
addressed properly, each entry is one layer closer to the entrance, so that the cells it marks are
those of a shortest path.

The places in the table are counted with `_row` where they should be counted with `_col`. This is
right for a square maze; otherwise two cells may share a place, or a place lies outside of the
table.

## Main results

- `showMazePath_returns` — the way back through a table that is addressed properly
- `searchMazePath_shortest` — a square maze
- `pPath_addressed_iff` — which mazes address the table properly
-/

namespace CppInOne.Algorithm.BfsMaze

open EdgeSearch Grid Loop

/-- What holds on the way back: the cells behind the current one are marked. -/
structure Back (g : Grid) (unused : SimpleGraph Cell) (s : Show) : Prop where
  row : s.maze.row = g.row
  col : s.maze.col = g.col
  reached : Reached g.ways unused entrance (s.x, s.y)
  traced : Traced g.ways unused entrance (s.maze.pred g)
  bounded : ∀ i ∈ s.maze.accesses, 0 ≤ i ∧ i < g.row * g.col
  walk : ∃ p : g.ways.Walk (s.x, s.y) g.exit,
    p.length + g.ways.dist entrance (s.x, s.y) = g.ways.dist entrance g.exit ∧
      ∀ c, Inside g.row g.col c → ((s.maze.pMaze c).val = star ↔ c ∈ p.support.tail)

/-- What holds at the end: the cells of a shortest way are marked. -/
structure Shown (g : Grid) (s : Show) : Prop where
  origin : s.x = 0 ∧ s.y = 0
  bounded : ∀ i ∈ s.maze.accesses, 0 ≤ i ∧ i < g.row * g.col
  walk : ∃ p : g.ways.Walk entrance g.exit, p.length = g.ways.dist entrance g.exit ∧
    ∀ c, Inside g.row g.col c → ((s.maze.pMaze c).val = star ↔ c ∈ p.support)

variable {g : Grid} {unused : SimpleGraph Cell} {m : BfsMaze} {c : Cell} {s : Show}

theorem load_of_pred {c' : Cell} (hc : Inside g.row g.col c) (h : m.pred g c = some c') :
    ∃ node, m.load (g.index c) = some node ∧ node.cell = c' := by
  obtain ⟨node, hnode, hcell⟩ := Option.map_eq_some_iff.mp h
  exact ⟨node, (if_pos (index_nonneg hc)).trans hnode, hcell⟩

/-- The cell that is marked next is the first of the walk. -/
theorem marked_put {maze : Maze} {v : Cell} (p : g.ways.Walk c v)
    (hmarked : ∀ c, Inside g.row g.col c → ((maze.pMaze c).val = star ↔ c ∈ p.support.tail)) :
    ∀ c', Inside g.row g.col c' →
      (((maze.put c ((maze.pMaze c).setVal star)).pMaze c').val = star ↔ c' ∈ p.support) := by
  intro c' hc'
  rw [SimpleGraph.Walk.mem_support_iff, ← hmarked c' hc', Maze.put_pMaze]
  by_cases heq : c' = c
  · simp [heq]
  · simp [heq]

/-- At the entrance the walk is a shortest one. -/
theorem Back.shown (h : Back g unused s) (horigin : s.x = 0 ∧ s.y = 0) :
    Shown g { s with maze := { s.maze with
      toMaze := s.maze.put (s.x, s.y) ((s.maze.pMaze (s.x, s.y)).setVal star) } } := by
  obtain ⟨p, hlength, hmarked⟩ := h.walk
  have hstart : (s.x, s.y) = entrance := Prod.ext horigin.1 horigin.2
  have hdist : g.ways.dist entrance (s.x, s.y) = 0 := by
    rw [hstart, SimpleGraph.dist_self]
  rw [hdist, Nat.add_zero] at hlength
  refine ⟨horigin, h.bounded, p.copy hstart rfl, ?_, ?_⟩
  · rwa [SimpleGraph.Walk.length_copy]
  · rw [SimpleGraph.Walk.support_copy]
    exact marked_put p hmarked

/-- Elsewhere the table leads one layer back. -/
theorem Back.step (h : Back g unused s) (haddr : g.Addressed)
    (hin : Inside g.row g.col (s.x, s.y)) (hreach : g.ways.Reachable entrance (s.x, s.y))
    {node : Node} (hreached : Reached g.ways unused entrance node.cell)
    (hadj : g.ways.Adj node.cell (s.x, s.y))
    (hdist : g.ways.dist entrance (s.x, s.y) = g.ways.dist entrance node.cell + 1) :
    Back g unused { s with
      maze := { s.maze with
        toMaze := s.maze.put (s.x, s.y) ((s.maze.pMaze (s.x, s.y)).setVal star)
        accesses := g.index (s.x, s.y) :: s.maze.accesses }
      x := node.x
      y := node.y } := by
  obtain ⟨p, hlength, hmarked⟩ := h.walk
  refine ⟨h.row, h.col, hreached, h.traced, ?_, SimpleGraph.Walk.cons hadj p, ?_, ?_⟩
  · intro i hi
    obtain rfl | hi := List.mem_cons.mp hi
    · exact ⟨index_nonneg hin, haddr.bounded _ hreach⟩
    · exact h.bounded i hi
  · change p.length + 1 + g.ways.dist entrance node.cell = _
    omega
  · exact marked_put p hmarked

/-- One round of the way back. -/
theorem backtrack_holds (h : Back g unused s) (haddr : g.Addressed) (hopen : g.Open entrance)
    (hreachable : ∀ c, Reached g.ways unused entrance c → g.ways.Reachable entrance c) :
    (backtrack s).Holds (fun s' => Back g unused s' ∧
      g.ways.dist entrance (s'.x, s'.y) < g.ways.dist entrance (s.x, s.y)) (Shown g) := by
  have hreach := hreachable _ h.reached
  have hin : Inside g.row g.col (s.x, s.y) := (open_of_reachable hopen hreach).1
  unfold backtrack
  rw [Maze.modify_of_inside _ (by rwa [h.row, h.col])]
  dsimp only
  split
  · next horigin => exact h.shown horigin
  · next horigin =>
    have hne : (s.x, s.y) ≠ entrance := fun heq =>
      horigin ⟨congrArg Prod.fst heq, congrArg Prod.snd heq⟩
    obtain ⟨c', hpred, hreached, hadj, hdist⟩ := h.traced _ h.reached hne
    obtain ⟨node, hload, rfl⟩ := load_of_pred hin hpred
    have hindex : s.x * s.maze.row + s.y = g.index (s.x, s.y) := by rw [h.row, Grid.index]
    rw [Maze.put_row, hindex]
    split
    · next hnone => cases hload.symm.trans hnone
    · next node' hsome =>
      obtain rfl := Option.some.inj (hload.symm.trans hsome)
      refine ⟨h.step haddr hin hreach hreached hadj hdist, ?_⟩
      change g.ways.dist entrance node.cell < _
      omega

/-- The search uses the places of cells that it has reached. -/
theorem Inv.bounded (h : Inv g unused m) (haddr : g.Addressed) :
    ∀ i ∈ m.accesses, 0 ≤ i ∧ i < g.row * g.col := by
  intro i hi
  obtain ⟨c, hreached, -, rfl⟩ := (h.accessed i).mp hi
  have hreachable := h.sound.reachable c hreached
  exact ⟨index_nonneg (inside_of_reachable inside_entrance hreachable),
    haddr.bounded c hreachable⟩

/-- Nothing is marked before the way back. -/
theorem Inv.val_ne_star (h : Inv g unused m) (hc : Inside g.row g.col c) :
    (m.pMaze c).val ≠ star := by
  rw [h.tracks.val c hc]
  obtain hzero | hone := g.binary c hc
  · rw [hzero]
    decide
  · rw [hone]
    decide

/-- The way back from an exit that has been reached. -/
theorem Result.showMazePath_returns (h : Result g unused m) (hopen : g.Open entrance)
    (haddr : g.Addressed) (hexit : Reached g.ways unused entrance g.exit) :
    ∃ s, Returns m.showMazePath s ∧ Shown g s := by
  have hsound := h.inv.sound
  have hback : Back g unused ⟨m, g.exit.1, g.exit.2, ""⟩ := by
    refine ⟨h.inv.tracks.row, h.inv.tracks.col, hexit, h.inv.traced haddr, h.inv.bounded haddr,
      SimpleGraph.Walk.nil, ?_, fun c hc => ?_⟩
    · exact Nat.zero_add _
    · exact iff_of_false (h.inv.val_ne_star hc) List.not_mem_nil
  have hround : ∀ (_ : Unit) s, Back g unused s → (backtrack s).Holds
      (fun s' => ∃ _ : Unit, Back g unused s' ∧
        g.ways.dist entrance (s'.x, s'.y) < g.ways.dist entrance (s.x, s.y)) (Shown g) := by
    intro _ s hs
    have hs' := backtrack_holds hs haddr hopen hsound.reachable
    exact hs'.mono (fun _ hback => ⟨(), hback⟩) fun _ => id
  obtain ⟨s, hs, hshown⟩ :=
    loop_returns (fun _ (s : Show) => g.ways.dist entrance (s.x, s.y)) hround (t := ()) hback
  have hrun : m.showMazePath = fun n => (loop backtrack n ⟨m, g.exit.1, g.exit.2, ""⟩).finish
      fun s => { s with out := s.maze.picture } := by
    funext n
    unfold showMazePath
    split
    · next hnil => exact absurd hnil (h.found.mpr hexit)
    · rw [h.inv.tracks.row, h.inv.tracks.col]
      rfl
  rw [hrun]
  exact ⟨_, hs.finish _, hshown.origin, hshown.bounded, hshown.walk⟩

/-! ## Square mazes -/

/-- The stride is enough for the cells of one row. -/
theorem index_injective (hstride : g.row = 1 ∨ g.col ≤ g.row) {c c' : Cell}
    (hc : Inside g.row g.col c) (hc' : Inside g.row g.col c') (h : g.index c = g.index c') :
    c = c' := by
  obtain ⟨⟨hx, hx'⟩, hy, hy'⟩ := hc
  obtain ⟨⟨hz, hz'⟩, hw, hw'⟩ := hc'
  unfold Grid.index at h
  have hrows : c.1 = c'.1 := by
    obtain hone | hle := hstride
    · omega
    · obtain hlt | heq | hgt := Int.lt_trichotomy c.1 c'.1
      · have hmul : (c.1 + 1) * g.row ≤ c'.1 * g.row :=
          Int.mul_le_mul_of_nonneg_right hlt (by omega)
        rw [Int.add_mul] at hmul
        omega
      · exact heq
      · have hmul : (c'.1 + 1) * g.row ≤ c.1 * g.row :=
          Int.mul_le_mul_of_nonneg_right hgt (by omega)
        rw [Int.add_mul] at hmul
        omega
  rw [hrows] at h
  exact Prod.ext hrows (by omega)

theorem index_lt (hstride : g.row = 1 ∨ g.row = g.col) (hc : Inside g.row g.col c) :
    g.index c < g.row * g.col := by
  obtain ⟨⟨hx, hx'⟩, hy, hy'⟩ := hc
  unfold Grid.index
  obtain hone | heq := hstride
  · rw [hone]
    omega
  · have hmul : (c.1 + 1) * g.row ≤ g.row * g.row :=
      Int.mul_le_mul_of_nonneg_right hx' (by omega)
    rw [Int.add_mul] at hmul
    rw [← heq]
    omega

theorem exit_ne_entrance (hcells : 2 ≤ g.row * g.col) : g.exit ≠ entrance := by
  intro heq
  obtain ⟨hrow, hcol⟩ := exit_eq_entrance_iff.mp heq
  rw [hrow, hcol] at hcells
  omega

/-- The maze is constructed, the search ends, its accesses to `_pPath` are inside of it, and then
either a shortest path is shown or the error message. -/
def ShowsShortest (g : Grid) (fresh : Cell → Node) : Prop :=
  ∃ maze b m, Maze.read fresh g.row g.col g.data = some maze ∧ create maze = some b ∧
    Returns b.searchMazePath m ∧
    (∀ i ∈ m.accesses, 0 ≤ i ∧ i < g.row * g.col) ∧
    (g.Solvable → ∃ s, Returns m.showMazePath s ∧ (s.x = 0 ∧ s.y = 0) ∧
      ∃ p : g.ways.Walk entrance g.exit, p.IsPath ∧
        (∀ q : g.ways.Walk entrance g.exit, p.length ≤ q.length) ∧
        ∀ c, Inside g.row g.col c → ((s.maze.pMaze c).val = star ↔ c ∈ p.support)) ∧
    (¬ g.Solvable → ∀ n, m.showMazePath n = .done ⟨m, 0, 0, "Path is Error!\n"⟩)

theorem create_eq {maze : Maze} (hrow : maze.row = g.row) (hcol : maze.col = g.col)
    (hint : g.row * g.col < 2 ^ 31) : create maze = some (start maze) := by
  rw [create, hrow, hcol, if_pos hint]

/-- In a square maze whose number of cells is an `int` the search finds a shortest path, and the
path is shown. -/
theorem searchMazePath_shortest (g : Grid) (hsquare : g.row = g.col) (hsize : 2 ≤ g.row)
    (hint : g.row ≤ 46340) (fresh : Cell → Node) : ShowsShortest g fresh := by
  have hcells : 2 ≤ g.row * g.col := by
    have hmul : 2 * g.row ≤ g.row * g.row := Int.mul_le_mul_of_nonneg_right hsize (by omega)
    rw [← hsquare]
    omega
  have hfits : g.row * g.col < 2 ^ 31 := by
    have hmul : g.row * g.row ≤ 46340 * 46340 := Int.mul_le_mul hint hint (by omega) (by omega)
    rw [← hsquare]
    omega
  have haddr : g.Addressed := by
    refine ⟨fun c c' => index_injective (Or.inr hsquare.ge), fun c hc => ?_⟩
    exact index_lt (Or.inr hsquare) (inside_of_reachable inside_entrance hc)
  obtain ⟨maze, hread, htracks⟩ := read_tracks g fresh
  obtain ⟨m, unused, hreturns, hresult⟩ :=
    searchMazePath_returns htracks (exit_ne_entrance hcells)
  refine ⟨maze, start maze, m, hread, create_eq htracks.row htracks.col hfits, hreturns,
    hresult.inv.bounded haddr, fun hsolvable => ?_, fun hnot => ?_⟩
  · have hexit := hresult.found.mp (hresult.solved.mpr hsolvable)
    obtain ⟨s, hs, hshown⟩ := hresult.showMazePath_returns hsolvable.1 haddr hexit
    obtain ⟨p, hlength, hmarked⟩ := hshown.walk
    refine ⟨s, hs, hshown.origin, p, p.isPath_of_length_eq_dist hlength, fun q => ?_, hmarked⟩
    rw [hlength]
    exact SimpleGraph.dist_le q
  · exact showMazePath_fails_iff.mpr (not_not.mp (mt hresult.solved.mp hnot))

theorem searchMazePath_shortest_free :
    ShowsShortest (free 2 2) fun _ => ⟨0, 0, 0, fun _ => 0⟩ :=
  searchMazePath_shortest (free 2 2) rfl (by decide) (by decide) _

/-- The number of cells of the next square maze is 2147488281, as an `int` -2147479015. -/
theorem square_too_large : ¬ ShowsShortest (free 46341 46341) fun _ => ⟨0, 0, 0, fun _ => 0⟩ := by
  rintro ⟨maze, b, m, hread, hcreate, -⟩
  obtain ⟨maze', hread', htracks⟩ := read_tracks (free 46341 46341) fun _ => ⟨0, 0, 0, fun _ => 0⟩
  obtain rfl := Option.some.inj (hread.symm.trans hread')
  have hnone : create maze = none := by
    rw [create, htracks.row, htracks.col]
    rfl
  rw [hnone] at hcreate
  cases hcreate

/-- The maze in the comment of `bfs.cpp`. -/
example :
    (match Maze.read (fun _ => ⟨0, 0, 0, fun _ => 0⟩) 6 6 fun c =>
        ([[0, 0, 1, 1, 1, 1],
          [1, 0, 0, 0, 0, 1],
          [1, 0, 1, 1, 0, 1],
          [1, 0, 0, 0, 0, 1],
          [1, 0, 1, 1, 1, 1],
          [1, 0, 0, 0, 0, 0]].getD c.1.toNat []).getD c.2.toNat 1 with
      | none => ""
      | some maze =>
        match (start maze).searchMazePath 40 with
        | .done m =>
          match m.showMazePath 20 with
          | .done s => s.out
          | _ => ""
        | _ => "") =
      "* * 1 1 1 1 \n1 * 0 0 0 1 \n1 * 1 1 0 1 \n1 * 0 0 0 1 \n1 * 1 1 1 1 \n1 * * * * * \n" := by
  decide +kernel

/-! ## All sizes -/

/-- The table is used inside of its bounds and with a place for each cell, and leads back from an
exit that can be reached. -/
structure TableSafe (g : Grid) (m : BfsMaze) : Prop where
  search : ∀ i ∈ m.accesses, 0 ≤ i ∧ i < g.row * g.col
  injective : ∀ c c', Inside g.row g.col c → Inside g.row g.col c' → g.index c = g.index c' → c = c'
  back : g.Solvable → ∃ s, Returns m.showMazePath s ∧
    (∀ i ∈ s.maze.accesses, 0 ≤ i ∧ i < g.row * g.col) ∧ (s.x = 0 ∧ s.y = 0) ∧
    ∃ p : g.ways.Walk entrance g.exit,
      ∀ c, Inside g.row g.col c → ((s.maze.pMaze c).val = star ↔ c ∈ p.support)

/-- In a maze that is wider than it is high, the place behind the first row is that of a cell in
the second row. -/
theorem stride_of_injective
    (h : ∀ c c', Inside g.row g.col c → Inside g.row g.col c' → g.index c = g.index c' → c = c') :
    g.row = 1 ∨ g.col ≤ g.row := by
  by_contra hnot
  have hrow := g.row_pos
  have heq := h (0, g.row) (1, 0) ⟨⟨le_rfl, by omega⟩, by omega, by omega⟩
    ⟨⟨by omega, by omega⟩, le_rfl, by omega⟩ (by simp [Grid.index])
  cases congrArg Prod.fst heq

/-- In a maze that is higher than it is wide, the place of the exit is outside. -/
theorem square_of_exit_lt (hstride : g.row = 1 ∨ g.col ≤ g.row)
    (h : g.index g.exit < g.row * g.col) : g.row = 1 ∨ g.row = g.col := by
  by_contra hnot
  have hrow := g.row_pos
  have hmul : 0 < (g.row - 1) * (g.row - g.col) := Int.mul_pos (by omega) (by omega)
  simp only [Grid.index, exit] at h
  rw [Int.mul_sub, Int.sub_mul, Int.one_mul, Int.sub_mul, Int.one_mul] at hmul
  rw [Int.sub_mul, Int.one_mul] at h
  omega

/-- A place that is needed is used by the search. -/
theorem Result.index_lt_of_search (h : Result g unused m) (hne : g.exit ≠ entrance)
    (hsearch : ∀ i ∈ m.accesses, 0 ≤ i ∧ i < g.row * g.col)
    (hstride : g.row = 1 ∨ g.col ≤ g.row) (hc : g.ways.Reachable entrance c) :
    g.index c < g.row * g.col := by
  have hused : ∀ c, Reached g.ways unused entrance c → c ≠ entrance →
      g.index c < g.row * g.col := fun c hreached hne =>
    (hsearch _ ((h.inv.accessed _).mpr ⟨c, hreached, hne, rfl⟩)).2
  by_cases hqueue : m.queue = []
  · by_cases hstart : c = entrance
    · have hmul : 0 < g.row * g.col := Int.mul_pos g.row_pos g.col_pos
      rw [hstart]
      simpa [Grid.index, entrance] using hmul
    · have hcells : m.cells = [] := by rw [cells, hqueue, List.map_nil]
      exact hused c ((hcells ▸ h.inv.sound).complete hc) hstart
  · have hexit := hused g.exit (h.found.mp hqueue) hne
    exact index_lt (square_of_exit_lt hstride hexit) (inside_of_reachable inside_entrance hc)

/-- A maze is constructed and its places are right when its number of cells is an `int`, when it has
one row or is not wider than high, and when no cell that can be reached has its place outside of the
table. -/
theorem pPath_addressed_iff (g : Grid) (hcells : 2 ≤ g.row * g.col) (fresh : Cell → Node) :
    ∃ maze m, Maze.read fresh g.row g.col g.data = some maze ∧
      Returns (start maze).searchMazePath m ∧
      (create maze = some (start maze) ∧ TableSafe g m ↔
        g.row * g.col < 2 ^ 31 ∧ (g.row = 1 ∨ g.col ≤ g.row) ∧
          ∀ c, g.ways.Reachable entrance c → g.index c < g.row * g.col) := by
  obtain ⟨maze, hread, htracks⟩ := read_tracks g fresh
  have hne := exit_ne_entrance hcells
  obtain ⟨m, unused, hreturns, hresult⟩ := searchMazePath_returns htracks hne
  refine ⟨maze, m, hread, hreturns, ?_, ?_⟩
  · rintro ⟨hcreate, hsearch, hinjective, -⟩
    have hint : maze.row * maze.col < 2 ^ 31 := (Option.ite_none_right_eq_some.mp hcreate).1
    rw [htracks.row, htracks.col] at hint
    have hstride := stride_of_injective hinjective
    exact ⟨hint, hstride, fun c hc => hresult.index_lt_of_search hne hsearch hstride hc⟩
  · rintro ⟨hint, hstride, hbounded⟩
    have haddr : g.Addressed := ⟨fun c c' => index_injective hstride, hbounded⟩
    refine ⟨create_eq htracks.row htracks.col hint, hresult.inv.bounded haddr, haddr.injective,
      fun hsolvable => ?_⟩
    have hexit := hresult.found.mp (hresult.solved.mpr hsolvable)
    obtain ⟨s, hs, hshown⟩ := hresult.showMazePath_returns hsolvable.1 haddr hexit
    obtain ⟨p, -, hmarked⟩ := hshown.walk
    exact ⟨s, hs, hshown.bounded, hshown.origin, p, hmarked⟩

theorem pPath_addressed_iff_free :
    ∃ maze m, Maze.read (fun _ => ⟨0, 0, 0, fun _ => 0⟩) 3 2 (fun _ => 0) = some maze ∧
      Returns (start maze).searchMazePath m ∧
      (create maze = some (start maze) ∧ TableSafe (free 3 2) m ↔
        (3 * 2 : ℤ) < 2 ^ 31 ∧ ((3 : ℤ) = 1 ∨ (2 : ℤ) ≤ 3) ∧
          ∀ c, (free 3 2).ways.Reachable entrance c → (free 3 2).index c < 3 * 2) :=
  pPath_addressed_iff (free 3 2) (by decide) _

/-- In a maze of three rows and two columns without walls the exit gets the place 7 of a table of
6 nodes. -/
theorem pPath_outside :
    ∃ maze m, Maze.read (fun _ => ⟨0, 0, 0, fun _ => 0⟩) 3 2 (fun _ => 0) = some maze ∧
      Returns (start maze).searchMazePath m ∧ 7 ∈ m.accesses ∧
      ¬ TableSafe (free 3 2) m := by
  obtain ⟨maze, hread, htracks⟩ := read_tracks (free 3 2)
    (fun _ => ⟨0, 0, 0, fun _ => 0⟩)
  obtain ⟨m, unused, hreturns, hresult⟩ := searchMazePath_returns htracks (by decide)
  have hsolvable : (free 3 2).Solvable := by
    refine ⟨by decide, ?_⟩
    have hdown : (free 3 2).ways.Adj (0, 0) (1, 0) :=
      ⟨by decide, by decide, .DOWN, rfl⟩
    have hdown' : (free 3 2).ways.Adj (1, 0) (2, 0) :=
      ⟨by decide, by decide, .DOWN, rfl⟩
    have hright : (free 3 2).ways.Adj (2, 0) (2, 1) :=
      ⟨by decide, by decide, .RIGHT, rfl⟩
    exact hdown.reachable.trans (hdown'.reachable.trans hright.reachable)
  have hexit := hresult.found.mp (hresult.solved.mpr hsolvable)
  have hmem : 7 ∈ m.accesses := (hresult.inv.accessed 7).mpr ⟨_, hexit, by decide, rfl⟩
  refine ⟨maze, m, hread, hreturns, hmem, fun hsafe => ?_⟩
  exact absurd (hsafe.search 7 hmem).2 (by decide)

end CppInOne.Algorithm.BfsMaze
