import CppInOne.Algorithm.Dfs
import CppInOne.Lib.Trail

/-!
# The path that the depth-first search shows

A cell can come onto the stack a second time, by ways that the path has not taken yet. No way is
taken twice, so that this happens only at cells with four open neighbours.

## Main results

- `Spent` — the ways of the path are used, each of them once
- `showMazePath_stars` — the stars are at the cells on the stack
- `searchMazePath_trail` — how often a cell can occur on the path
-/

namespace CppInOne.Algorithm

open EdgeSearch Grid Loop Trail

/-- The directions in which one can go on from a cell. -/
def Grid.openings (g : Grid) (c : Cell) : List Direction :=
  [.RIGHT, .DOWN, .LEFT, .UP].filter fun d => g.Open (d.step c)

namespace DfsMaze

/-- The path on the stack goes by used ways, and by each of them once. -/
structure Spent (g : Grid) (unused : SimpleGraph Cell) (m : DfsMaze) : Prop where
  tracks : Tracks g unused m.toMaze
  trail : IsTrail m.cells
  used : ∀ e ∈ edges m.cells, e ∉ unused.edgeSet

variable {g : Grid} {unused unused' : SimpleGraph Cell} {m m' : DfsMaze} {maze : Maze} {c : Cell}

theorem Spent.of_edges_nil (htracks : Tracks g unused m.toMaze) (hnil : edges m.cells = []) :
    Spent g unused m where
  tracks := htracks
  trail := by
    rw [IsTrail, hnil]
    exact List.nodup_nil
  used e he := by
    rw [hnil] at he
    cases he

/-- **Step lemma**: the way that is taken has not been used. -/
theorem Spent.move (h : Spent g unused m) (hinv : Inv g unused m)
    (hmove : Move g unused m unused' m') : Spent g unused' m' := by
  have htracks := (hinv.move hmove).1.tracks
  cases hmove with
  | @push c cs d _ hcells hexit hd hmaze hcells' =>
    have hedges : edges m'.cells = s(c, d.step c) :: edges m.cells := by
      rw [hcells', hcells, edges_cons_cons, Sym2.eq_swap]
    refine ⟨htracks, ?_, ?_⟩
    · rw [IsTrail, hedges]
      exact List.nodup_cons.mpr ⟨fun he => h.used _ he hd, h.trail⟩
    · rw [hedges, List.forall_mem_cons]
      exact ⟨not_use_adj, fun e he hunused => h.used e he (SimpleGraph.edgeSet_mono use_le hunused)⟩
  | pop hcells hexit hnone =>
    have hedges : edges m.pop.cells = (edges m.cells).tail := by rw [pop_cells, edges_tail]
    refine ⟨htracks, ?_, fun e he => ?_⟩
    · rw [IsTrail, hedges]
      exact h.trail.tail
    · rw [hedges] at he
      exact h.used e (List.mem_of_mem_tail he)

/-- At the end the ways of the path have all been taken once. -/
theorem searchMazePath_spent (h : Tracks g g.ways maze) :
    ∃ m, Returns (start maze).searchMazePath m ∧ Result g m ∧ ∃ unused, Spent g unused m := by
  apply searchMazePath_returns_with (J := Spent g) _ _ _ h
  · intro m htracks hcells
    exact Spent.of_edges_nil htracks (by rw [hcells, edges_nil])
  · intro m htracks hcells
    exact Spent.of_edges_nil htracks (by rw [hcells, edges_singleton])
  · intro unused m unused' m' hinv hspent hmove
    exact hspent.move hinv hmove

/-! ## How often a cell occurs -/

/-- A way at an open cell leads on in one of its openings. -/
theorem edge_of_chain (hchain : m.cells.IsChain g.ways.Adj) {e : Sym2 Cell}
    (he : e ∈ edges m.cells) (hc : c ∈ e) :
    ∃ c' ∈ (g.openings c).map fun d => d.step c, e = s(c, c') := by
  obtain ⟨u, v, hadj, rfl⟩ := exists_adj_of_mem_edges hchain he
  have hway : ∃ c', g.ways.Adj c c' ∧ s(u, v) = s(c, c') := by
    obtain rfl | rfl := Sym2.mem_iff.mp hc
    · exact ⟨v, hadj, rfl⟩
    · exact ⟨u, hadj.symm, Sym2.eq_swap⟩
  obtain ⟨_, ⟨-, hopen, d, rfl⟩, heq⟩ := hway
  refine ⟨d.step c, List.mem_map.mpr ⟨d, List.mem_filter.mpr ⟨?_, decide_eq_true hopen⟩, rfl⟩, heq⟩
  cases d with
  | RIGHT | DOWN | LEFT | UP => decide

/-- The corners with the entrance and the exit have fewer openings than a crossing. -/
theorem openings_le (g : Grid) (c : Cell) :
    (g.openings c).length + (if c = g.exit then 1 else 0) + (if c = entrance then 1 else 0) ≤ 3 ∨
      (g.openings c).length = 4 ∧ c ≠ g.exit ∧ c ≠ entrance := by
  have hlength : (g.openings c).length =
      (if g.Open (Direction.RIGHT.step c) then 1 else 0) +
      (if g.Open (Direction.DOWN.step c) then 1 else 0) +
      (if g.Open (Direction.LEFT.step c) then 1 else 0) +
      if g.Open (Direction.UP.step c) then 1 else 0 := by
    rw [openings, ← List.countP_eq_length_filter]
    simp only [List.countP_cons, List.countP_nil, decide_eq_true_eq]
    omega
  have hexit : c = g.exit → ¬ g.Open (Direction.RIGHT.step c) ∧
      ¬ g.Open (Direction.DOWN.step c) := by
    rintro rfl
    simp [Open, Inside, Direction.step, exit]
  have hentrance : c = entrance → ¬ g.Open (Direction.LEFT.step c) ∧
      ¬ g.Open (Direction.UP.step c) := by
    rintro rfl
    simp [Open, Inside, Direction.step, entrance]
  rw [hlength]
  by_cases he : c = g.exit
  · left
    obtain ⟨hright, hdown⟩ := hexit he
    rw [if_neg hright, if_neg hdown, if_pos he]
    by_cases hc : c = entrance
    · obtain ⟨hleft, hup⟩ := hentrance hc
      rw [if_neg hleft, if_neg hup, if_pos hc]
      omega
    · rw [if_neg hc]
      split_ifs <;> omega
  · by_cases hc : c = entrance
    · left
      obtain ⟨hleft, hup⟩ := hentrance hc
      rw [if_neg hleft, if_neg hup, if_neg he, if_pos hc]
      split_ifs <;> omega
    · rw [if_neg he, if_neg hc]
      split_ifs <;> simp [he, hc]

theorem open_of_openings (h : (g.openings c).length = 4) (d : Direction) : g.Open (d.step c) := by
  have hall : g.openings c = [.RIGHT, .DOWN, .LEFT, .UP] :=
    List.filter_sublist.eq_of_length h
  have hd : d ∈ g.openings c := by
    rw [hall]
    cases d with
    | RIGHT | DOWN | LEFT | UP => decide
  exact of_decide_eq_true (List.mem_filter.mp hd).2

/-- A path without a repeated way comes to a cell once, and twice at most at a crossing. -/
theorem count_le (hresult : Result g m) (htrail : IsTrail m.cells) (c : Cell) :
    m.cells.count c ≤ 1 ∨ m.cells.count c = 2 ∧ ∀ d : Direction, g.Open (d.step c) := by
  by_cases hnil : m.stack = []
  · left
    rw [cells, hnil]
    exact Nat.zero_le 1
  · obtain ⟨hfirst, hlast, hchain⟩ := hresult.leads hnil
    rw [List.head?_reverse] at hfirst
    rw [List.getLast?_reverse] at hlast
    have hchain : m.cells.IsChain g.ways.Adj :=
      (List.isChain_reverse.mp hchain).imp fun _ _ hadj => hadj.symm
    have hne : m.cells.IsChain (· ≠ ·) := hchain.imp fun _ _ hadj => hadj.ne
    have hle := htrail.two_mul_count_le hne fun e he (hc : c ∈ e) => edge_of_chain hchain he hc
    rw [List.length_map, hfirst, hlast] at hle
    simp only [Option.some.injEq, eq_comm (b := c)] at hle
    obtain hfew | ⟨hfour, hexit, hentrance⟩ := openings_le g c
    · left
      omega
    · rw [if_neg hexit, if_neg hentrance] at hle
      have htwo : m.cells.count c ≤ 2 := by omega
      obtain hone | heq := Nat.le_succ_iff.mp htwo
      · exact Or.inl hone
      · exact Or.inr ⟨heq, open_of_openings hfour⟩

/-! ## The picture -/

/-- The loop of `showMazePath` that empties the stack. -/
theorem foldlM_setVal {stack : List Node} (hstack : ∀ n ∈ stack, Inside maze.row maze.col n.cell) :
    ∃ maze', stack.foldlM (fun maze top => maze.modify top.cell (·.setVal star)) maze =
        some maze' ∧
      ∀ c, (maze'.pMaze c).val = if c ∈ stack.map Node.cell then star else (maze.pMaze c).val := by
  induction stack generalizing maze with
  | nil => exact ⟨maze, rfl, fun c => (if_neg List.not_mem_nil).symm⟩
  | cons top stack ih =>
    obtain ⟨htop, hstack⟩ := List.forall_mem_cons.mp hstack
    obtain ⟨maze', hrest, hvals⟩ := @ih (maze.put top.cell
      ((maze.pMaze top.cell).setVal star)) hstack
    refine ⟨maze', ?_, fun c => ?_⟩
    · rw [List.foldlM_cons, Maze.modify_of_inside _ htop]
      exact hrest
    · rw [hvals c, List.map_cons, Maze.put_pMaze, Function.update_apply]
      by_cases hmem : c ∈ stack.map Node.cell
      · rw [if_pos hmem, if_pos (List.mem_cons_of_mem _ hmem)]
      · by_cases hc : c = top.cell
        · rw [if_neg hmem, if_pos hc, if_pos (List.mem_cons.mpr (Or.inl hc)), Node.setVal_val]
        · rw [if_neg hmem, if_neg hc, if_neg]
          exact fun h => (List.mem_cons.mp h).elim hc hmem

/-- The stars are at the cells that were on the stack. -/
theorem showMazePath_stars (htracks : Tracks g unused m.toMaze) (hopen : ∀ c ∈ m.cells, g.Open c) :
    ∃ m' text, m.showMazePath = some (m', text) ∧
      ∀ c, Inside g.row g.col c → ((m'.pMaze c).val = star ↔ c ∈ m.cells) := by
  have hdata : ∀ c, Inside g.row g.col c → ¬ (m.pMaze c).val = star := by
    intro c hc
    rw [htracks.val c hc, star]
    have hbinary := g.binary c hc
    have hstar : ('*'.toNat : ℤ) = 42 := rfl
    omega
  unfold showMazePath
  split
  · next hnil =>
    refine ⟨m, _, rfl, fun c hc => iff_of_false (hdata c hc) ?_⟩
    rw [cells, hnil]
    exact List.not_mem_nil
  · have hstack : ∀ n ∈ m.stack, Inside m.row m.col n.cell := by
      intro n hn
      rw [htracks.row, htracks.col]
      exact (hopen n.cell (List.mem_map_of_mem hn)).1
    obtain ⟨maze, hloop, hvals⟩ := foldlM_setVal hstack
    rw [hloop]
    refine ⟨_, _, rfl, fun c hc => ?_⟩
    rw [hvals c]
    by_cases hmem : c ∈ m.stack.map Node.cell
    · rw [if_pos hmem]
      exact iff_of_true rfl hmem
    · rw [if_neg hmem]
      exact iff_of_false (hdata c hc) hmem

/-- **The path is a trail.** No way is taken twice, a cell occurs at most twice, and twice only
where all its four neighbours are open. -/
theorem searchMazePath_trail (g : Grid) (fresh : Cell → Node) :
    ∃ maze m m' text, Maze.read fresh g.row g.col g.data = some maze ∧
      Returns (start maze).searchMazePath m ∧
      (m.stack ≠ [] ↔ g.Solvable) ∧ (m.stack ≠ [] → Leads g m.cells.reverse) ∧
      IsTrail m.cells ∧
      (∀ c, m.cells.count c ≤ 1 ∨ m.cells.count c = 2 ∧ ∀ d : Direction, g.Open (d.step c)) ∧
      m.showMazePath = some (m', text) ∧
      ∀ c, Inside g.row g.col c → ((m'.pMaze c).val = star ↔ c ∈ m.cells) := by
  obtain ⟨maze, hread, htracks⟩ := read_tracks g fresh
  obtain ⟨m, hreturns, hresult, unused, hspent⟩ := searchMazePath_spent htracks
  obtain ⟨m', text, hshow, hstars⟩ := showMazePath_stars hspent.tracks hresult.opened
  exact ⟨maze, m, m', text, hread, hreturns, hresult.solved, hresult.leads, hspent.trail,
    count_le hresult hspent.trail, hshow, hstars⟩

/-- A loop of ways above the only cell that leads to the exit. -/
def loopGrid : Grid where
  row := 3
  col := 4
  data c := if c ∈ ([(0, 1), (2, 0), (2, 1)] : List Cell) then 1 else 0
  row_pos := by decide
  col_pos := by decide
  binary c _ := by
    split
    · exact Or.inr rfl
    · exact Or.inl rfl

/-- Result of a search that has returned after so many rounds. -/
def searched (maze : Maze) (rounds : ℕ) : Option DfsMaze :=
  match (start maze).searchMazePath rounds with
  | .done m => some m
  | _ => none

theorem returns_of_searched {rounds : ℕ} (h : searched maze rounds = some m) :
    Returns (start maze).searchMazePath m := by
  have hdone : (start maze).searchMazePath rounds = .done m := by
    unfold searched at h
    split at h
    · next hm => rw [hm, Option.some.inj h]
    · cases h
  refine ⟨rounds, fun n hn => ?_⟩
  unfold searchMazePath at hdone ⊢
  split at hdone
  · cases hdone
  · split at hdone
    · next hwall => rw [if_pos hwall, hdone]
    · next hopen => rw [if_neg hopen, loop_done hdone hn]

/-- The search walks round the loop and stays at its crossing for the second time. -/
theorem loopGrid_detour :
    loopGrid.Solvable ∧ ∃ maze m,
      Maze.read (fun _ => ⟨0, 0, 0, fun _ => 0⟩) 3 4 loopGrid.data = some maze ∧
      Returns (start maze).searchMazePath m ∧
      m.cells.reverse = [(0, 0), (1, 0), (1, 1), (1, 2), (1, 3), (0, 3), (0, 2), (1, 2), (2, 2),
        (2, 3)] ∧ ¬ m.cells.Nodup := by
  obtain ⟨maze, hread, htracks⟩ := read_tracks loopGrid fun _ => ⟨0, 0, 0, fun _ => 0⟩
  have hrun : ((Maze.read (fun _ => ⟨0, 0, 0, fun _ => 0⟩) 3 4 loopGrid.data).bind
      fun maze => searched maze 12).map (fun m => m.cells.reverse) = some [(0, 0), (1, 0), (1, 1),
        (1, 2), (1, 3), (0, 3), (0, 2), (1, 2), (2, 2), (2, 3)] := by
    decide +kernel
  obtain ⟨m, hsearched, hcells⟩ := Option.map_eq_some_iff.mp hrun
  rw [show Maze.read _ 3 4 loopGrid.data = some maze from hread, Option.bind_some] at hsearched
  have hreturns := returns_of_searched hsearched
  obtain ⟨m', hreturns', hresult⟩ := searchMazePath_returns htracks
  obtain rfl := hreturns.unique hreturns'
  refine ⟨hresult.solved.mp ?_, maze, m, hread, hreturns, hcells, ?_⟩
  · rintro hnil
    rw [cells, hnil] at hcells
    cases hcells
  · rw [← List.nodup_reverse, hcells]
    decide

end DfsMaze

end CppInOne.Algorithm
