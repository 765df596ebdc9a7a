import CppInOne.Algorithm.Bfs
import CppInOne.Algorithm.Dfs

/-!
# The two searches on the same maze

Both searches find the exit when there is a way to it. The depth-first search compares the top of
its stack with the exit, the breadth-first search the cells that it puts into its queue: it never
looks at the entrance. This makes a difference when the entrance is the exit.

## Main results

- `searchMazePath_single` — the breadth-first search of a single cell
- `searches_agree_iff` — the mazes on which the two programs agree
-/

namespace CppInOne.Algorithm

open EdgeSearch Grid Loop

variable {g : Grid}

/-- A single cell has no ways. -/
theorem not_adj_of_single (hrow : g.row = 1) (hcol : g.col = 1) (d : Direction) :
    ¬ g.ways.Adj entrance (d.step entrance) := by
  rintro ⟨-, ⟨⟨⟨hx, hx'⟩, hy, hy'⟩, -⟩, -⟩
  rw [hrow] at hx'
  rw [hcol] at hy'
  cases d <;> simp [Direction.step, entrance] at hx hx' hy hy'

/-- The breadth-first search takes the only cell off again. -/
theorem searchMazePath_single {maze : Maze} (h : Tracks g g.ways maze) (hrow : g.row = 1)
    (hcol : g.col = 1) :
    ∃ m, Returns (BfsMaze.start maze).searchMazePath m ∧ m.queue = [] := by
  obtain ⟨-, hdone⟩ | ⟨-, first, hfirst, hloop⟩ := BfsMaze.searchMazePath_cases h
  · exact ⟨BfsMaze.start maze, ⟨0, fun n _ => hdone n⟩, rfl⟩
  · have hnone : ∀ d opposite c' index,
        BfsMaze.branch d opposite (first.x, first.y) c' index
          { BfsMaze.start maze with queue := [first] } =
          .next { BfsMaze.start maze with queue := [first] } := by
      intro d opposite c' index
      change BfsMaze.branch d opposite first.cell c' index _ = _
      rw [hfirst]
      exact BfsMaze.branch_of_not_adj h inside_entrance (not_adj_of_single hrow hcol d) ..
    have hbody : BfsMaze.body { BfsMaze.start maze with queue := [first] } =
        .next (BfsMaze.start maze) := by
      unfold BfsMaze.body
      dsimp only
      rw [hnone, Round.next_bind, hnone, Round.next_bind, hnone, Round.next_bind, hnone]
      rfl
    rw [hloop]
    refine ⟨BfsMaze.start maze, returns_of_loop (n := 2) ?_, rfl⟩
    rw [loop, hbody]
    rfl

theorem solvable_of_single (hrow : g.row = 1) (hcol : g.col = 1) :
    g.Solvable ↔ g.data entrance = 0 := by
  have hexit : g.exit = entrance := exit_eq_entrance_iff.mpr ⟨hrow, hcol⟩
  constructor
  · rintro ⟨⟨-, hdata⟩, -⟩
    exact hdata
  · intro hdata
    refine ⟨⟨inside_entrance, hdata⟩, ?_⟩
    rw [hexit]

/-- The two searches agree on every maze but a single open cell. -/
theorem searches_agree_iff (g : Grid) (fresh fresh' : Cell → Node) :
    ∃ maze m maze' m', Maze.read fresh g.row g.col g.data = some maze ∧
      Returns (BfsMaze.start maze).searchMazePath m ∧
      Maze.read fresh' g.row g.col g.data = some maze' ∧
      Returns (DfsMaze.start maze').searchMazePath m' ∧
      ((m.queue ≠ [] ↔ m'.stack ≠ []) ↔ ¬ (g.row = 1 ∧ g.col = 1 ∧ g.data entrance = 0)) ∧
      (((∀ n, m.showMazePath n = .done ⟨m, 0, 0, "Path is Error!\n"⟩) ↔
          m'.showMazePath = some (m', "Path is Error!\n")) ↔
        ¬ (g.row = 1 ∧ g.col = 1 ∧ g.data entrance = 0)) := by
  obtain ⟨maze, hread, htracks⟩ := read_tracks g fresh
  obtain ⟨maze', hread', htracks'⟩ := read_tracks g fresh'
  obtain ⟨m', hreturns', hresult'⟩ := DfsMaze.searchMazePath_returns htracks'
  suffices ∃ m, Returns (BfsMaze.start maze).searchMazePath m ∧
      ((m.queue ≠ [] ↔ m'.stack ≠ []) ↔ ¬ (g.row = 1 ∧ g.col = 1 ∧ g.data entrance = 0)) by
    obtain ⟨m, hreturns, hagree⟩ := this
    refine ⟨maze, m, maze', m', hread, hreturns, hread', hreturns', hagree, ?_⟩
    rw [BfsMaze.showMazePath_fails_iff, DfsMaze.showMazePath_fails_iff, ← hagree]
    exact not_iff_not.symm
  rw [hresult'.solved]
  by_cases hone : g.row = 1 ∧ g.col = 1
  · obtain ⟨hrow, hcol⟩ := hone
    obtain ⟨m, hreturns, hnil⟩ := searchMazePath_single htracks hrow hcol
    refine ⟨m, hreturns, ?_⟩
    rw [solvable_of_single hrow hcol]
    simp [hnil, hrow, hcol]
  · have hne : g.exit ≠ entrance := mt exit_eq_entrance_iff.mp hone
    obtain ⟨m, unused, hreturns, hresult⟩ := BfsMaze.searchMazePath_returns htracks hne
    refine ⟨m, hreturns, iff_of_true hresult.solved ?_⟩
    rintro ⟨hrow, hcol, -⟩
    exact hone ⟨hrow, hcol⟩

/-- A single open cell is its own exit, and `bfs.cpp` does not find it. -/
theorem single_disagrees :
    ∃ maze m maze' m', Maze.read (fun _ => ⟨0, 0, 0, fun _ => 0⟩) 1 1 (fun _ => 0) = some maze ∧
      Returns (BfsMaze.start maze).searchMazePath m ∧
      Maze.read (fun _ => ⟨0, 0, 0, fun _ => 0⟩) 1 1 (fun _ => 0) = some maze' ∧
      Returns (DfsMaze.start maze').searchMazePath m' ∧ m.queue = [] ∧ m'.stack ≠ [] := by
  obtain ⟨maze, hread, htracks⟩ := read_tracks (free 1 1)
    (fun _ => ⟨0, 0, 0, fun _ => 0⟩)
  obtain ⟨m, hreturns, hnil⟩ := searchMazePath_single htracks rfl rfl
  obtain ⟨m', hreturns', hresult'⟩ := DfsMaze.searchMazePath_returns htracks
  refine ⟨maze, m, maze, m', hread, hreturns, hread, hreturns', hnil, ?_⟩
  exact hresult'.solved.mpr ((solvable_of_single rfl rfl).mpr rfl)

end CppInOne.Algorithm
