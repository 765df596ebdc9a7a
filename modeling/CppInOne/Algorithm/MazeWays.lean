import CppInOne.Algorithm.Maze
import CppInOne.Lib.EdgeSearch
import Mathlib.Algebra.Group.Int.Even
import Mathlib.Combinatorics.SimpleGraph.Coloring.Vertex
import Mathlib.Data.Int.Interval
import Mathlib.Order.Interval.Finset.Basic

/-!
# The ways through a maze

The open cells of a maze and the steps between them are a graph. The states of the nodes are the
edges of it that have not been used: `Tracks` says so, `read` establishes it, and `close` takes one
edge away.

## Main results

- `read_tracks` — after the input all edges are there
- `Tracks.close` — the two assignments of a search take away one edge
- `Grid.coloring` — the graph is bipartite
-/

namespace CppInOne.Algorithm

open EdgeSearch

namespace Direction

/-- The cell next to `c` in a direction. -/
def step (d : Direction) (c : Cell) : Cell :=
  match d with
  | RIGHT => (c.1, c.2 + 1)
  | DOWN => (c.1 + 1, c.2)
  | LEFT => (c.1, c.2 - 1)
  | UP => (c.1 - 1, c.2)

def opposite : Direction → Direction
  | RIGHT => LEFT
  | DOWN => UP
  | LEFT => RIGHT
  | UP => DOWN

@[simp] theorem step_opposite (d : Direction) (c : Cell) : d.opposite.step (d.step c) = c := by
  cases d <;> simp [step, opposite]

theorem step_ne (d : Direction) (c : Cell) : d.step c ≠ c := by
  intro h
  have hfst := congrArg Prod.fst h
  have hsnd := congrArg Prod.snd h
  cases d <;> simp [step] at hfst hsnd

theorem step_inj {d d' : Direction} {c : Cell} (h : d.step c = d'.step c) : d = d' := by
  have hfst := congrArg Prod.fst h
  have hsnd := congrArg Prod.snd h
  cases d <;> cases d' <;> first | rfl | (simp only [step] at hfst hsnd; omega)

end Direction

/-- What is typed in for a maze: its size, and 0 or 1 for each cell. -/
structure Grid where
  row : ℤ
  col : ℤ
  data : Cell → ℤ
  row_pos : 1 ≤ row
  col_pos : 1 ≤ col
  binary : ∀ c, Inside row col c → data c = 0 ∨ data c = 1

namespace Grid

def entrance : Cell := (0, 0)

def exit (g : Grid) : Cell := (g.row - 1, g.col - 1)

/-- A cell of the maze that is not a wall. -/
def Open (g : Grid) (c : Cell) : Prop := Inside g.row g.col c ∧ g.data c = 0

instance Open.decidable (g : Grid) (c : Cell) : Decidable (g.Open c) :=
  inferInstanceAs (Decidable (Inside g.row g.col c ∧ g.data c = 0))

/-- Horizontal and vertical steps between open cells. -/
def ways (g : Grid) : SimpleGraph Cell where
  Adj c c' := g.Open c ∧ g.Open c' ∧ ∃ d : Direction, c' = d.step c
  symm := ⟨by
    rintro c _ ⟨hc, hc', d, rfl⟩
    exact ⟨hc', hc, d.opposite, (d.step_opposite c).symm⟩⟩
  loopless := ⟨by
    rintro c ⟨-, -, d, h⟩
    exact d.step_ne c h.symm⟩

/-- A maze without walls. -/
def free (row col : ℤ) (hrow : 1 ≤ row := by decide) (hcol : 1 ≤ col := by decide) : Grid where
  row := row
  col := col
  data _ := 0
  row_pos := hrow
  col_pos := hcol
  binary _ _ := Or.inl rfl

/-- The exit can be reached from the entrance through open cells. -/
def Solvable (g : Grid) : Prop := g.Open entrance ∧ g.ways.Reachable entrance g.exit

variable {g : Grid} {c c' : Cell}

theorem inside_entrance : Inside g.row g.col entrance := by
  have hrow := g.row_pos
  have hcol := g.col_pos
  simp only [Inside, entrance]
  omega

theorem exit_eq_entrance_iff : g.exit = entrance ↔ g.row = 1 ∧ g.col = 1 := by
  simp only [exit, entrance, Prod.mk.injEq]
  omega

theorem ways_adj : g.ways.Adj c c' ↔ g.Open c ∧ g.Open c' ∧ ∃ d : Direction, c' = d.step c :=
  Iff.rfl

theorem open_of_reachable (hc : g.Open c) (h : g.ways.Reachable c c') : g.Open c' := by
  obtain ⟨p⟩ := h
  induction p with
  | nil => exact hc
  | cons hadj p ih => exact ih hadj.2.1

theorem inside_of_reachable (hc : Inside g.row g.col c) (h : g.ways.Reachable c c') :
    Inside g.row g.col c' := by
  obtain ⟨p⟩ := h
  induction p with
  | nil => exact hc
  | cons hadj p ih => exact ih hadj.2.1.1

/-- The colours of a chessboard. -/
def coloring (g : Grid) : g.ways.Coloring Bool :=
  SimpleGraph.Coloring.mk (fun c => decide (Even (c.1 + c.2))) (by
    rintro c _ ⟨-, -, d, rfl⟩ heq
    have heven := decide_eq_decide.mp heq
    rw [Int.even_iff, Int.even_iff] at heven
    cases d <;> simp only [Direction.step] at heven <;> omega)

theorem finite_ways (g : Grid) : g.ways.edgeSet.Finite := by
  have hbox : (Set.Icc ((0, 0) : Cell) (g.row, g.col)).Finite := Set.finite_Icc ..
  refine ((hbox.prod hbox).image fun p => s(p.1, p.2)).subset ?_
  intro e he
  induction e using Sym2.ind with
  | _ c c' =>
    obtain ⟨⟨hc, -⟩, ⟨hc', -⟩, -⟩ := (SimpleGraph.mem_edgeSet g.ways).mp he
    obtain ⟨⟨hx, hx'⟩, hy, hy'⟩ := hc
    obtain ⟨⟨hz, hz'⟩, hw, hw'⟩ := hc'
    exact ⟨(c, c'), ⟨⟨⟨hx, hy⟩, hx'.le, hy'.le⟩, ⟨hz, hw⟩, hz'.le, hw'.le⟩, rfl⟩

end Grid

/-- The nodes stand at their coordinates and keep their values, and the states are the unused
edges. -/
structure Tracks (g : Grid) (unused : SimpleGraph Cell) (m : Maze) : Prop where
  row : m.row = g.row
  col : m.col = g.col
  cell : ∀ c, Inside g.row g.col c → (m.pMaze c).cell = c
  val : ∀ c, Inside g.row g.col c → (m.pMaze c).val = g.data c
  state : ∀ c, Inside g.row g.col c →
    ∀ d, (m.pMaze c).state d = YES ↔ unused.Adj c (d.step c)

/-! ## The input -/

section Input

variable {g : Grid} {m : Maze} {c : Cell}

/-- The array holds the numbers that were typed in. -/
structure Typed (g : Grid) (m : Maze) : Prop where
  row : m.row = g.row
  col : m.col = g.col
  val : ∀ c, Inside g.row g.col c → (m.pMaze c).val = g.data c

theorem Typed.put (h : Typed g m) {n : Node} (hn : n.val = g.data c) : Typed g (m.put c n) where
  row := h.row
  col := h.col
  val c' hc' := by
    rw [Maze.put_pMaze]
    by_cases hcc : c' = c
    · rw [hcc, Function.update_self, hn]
    · rw [Function.update_of_ne hcc, h.val c' hc']

/-- The node at `c` after the test of one direction. -/
def mark (g : Grid) (c : Cell) (d : Direction) (n : Node) : Node :=
  if g.Open (d.step c) then n.setState d YES else n

/-- The node at `c` after the tests of all four. -/
def markAll (g : Grid) (c : Cell) (n : Node) : Node :=
  if g.data c = 1 then n
  else mark g c .UP (mark g c .LEFT (mark g c .DOWN (mark g c .RIGHT n)))

@[simp] theorem mark_val (d : Direction) (n : Node) : (mark g c d n).val = n.val := by
  unfold mark
  split <;> rfl

@[simp] theorem mark_cell (d : Direction) (n : Node) : (mark g c d n).cell = n.cell := by
  unfold mark
  split <;> rfl

theorem mark_state (d d' : Direction) (n : Node) :
    (mark g c d n).state d' = if d' = d ∧ g.Open (d.step c) then YES else n.state d' := by
  unfold mark
  by_cases hopen : g.Open (d.step c)
  · by_cases hd : d' = d
    · subst hd
      simp [hopen]
    · simp [hopen, hd]
  · simp [hopen]

@[simp] theorem markAll_val (n : Node) : (markAll g c n).val = n.val := by
  unfold markAll
  split
  · rfl
  · simp

@[simp] theorem markAll_cell (n : Node) : (markAll g c n).cell = n.cell := by
  unfold markAll
  split
  · rfl
  · simp

/-- A node of which no direction was allowed. -/
theorem markAll_state {n : Node} (hc : Inside g.row g.col c) (hn : ∀ d, n.state d = NO)
    (d : Direction) : (markAll g c n).state d = YES ↔ g.ways.Adj c (d.step c) := by
  have hno : ¬ NO = YES := by decide
  rw [Grid.ways_adj, Grid.Open]
  unfold markAll
  obtain hdata | hdata := g.binary c hc
  · rw [if_neg (by omega)]
    have hstep : ∃ d' : Direction, d.step c = d'.step c := ⟨d, rfl⟩
    simp only [mark_state]
    cases d <;> simp [hc, hdata, hn, hno, hstep]
  · simp [hdata, hn, hno]

/-- The guard says that there is a neighbour in the direction. -/
theorem Typed.allow (h : Typed g m) (hc : Inside g.row g.col c) {n : Node} (hn : n.val = g.data c)
    {guard : Prop} [Decidable guard] {d : Direction}
    (hguard : guard ↔ Inside g.row g.col (d.step c)) :
    (m.put c n).allow guard (d.step c) c d = some (m.put c (mark g c d n)) := by
  have ht : Typed g (m.put c n) := h.put hn
  unfold Maze.allow mark
  by_cases hg : guard
  · have hin := hguard.mp hg
    rw [if_pos hg, Maze.node_of_inside (by rwa [ht.row, ht.col]), Option.bind_eq_bind,
      Option.bind_some, ht.val _ hin]
    by_cases hdata : g.data (d.step c) = 0
    · rw [if_pos hdata, if_pos ⟨hin, hdata⟩, Maze.modify_of_inside _ (by rwa [ht.row, ht.col]),
        Maze.put_put, Maze.put_pMaze, Function.update_self]
    · rw [if_neg hdata, if_neg fun hopen => hdata hopen.2]
  · rw [if_neg hg, if_neg fun hopen => hg (hguard.mpr hopen.1)]

/-- One round of `setNodeState`. -/
theorem Typed.setNodeStateAt (h : Typed g m) (hc : Inside g.row g.col c) :
    m.setNodeStateAt c.1 c.2 = some (m.put c (markAll g c (m.pMaze c))) := by
  have hval := h.val c hc
  unfold Maze.setNodeStateAt markAll
  rw [Maze.node_of_inside (by rwa [h.row, h.col]), Option.bind_eq_bind, Option.bind_some, hval]
  by_cases hwall : g.data c = 1
  · rw [if_pos hwall, if_pos hwall, Maze.put_self]
  · have hin : (0 ≤ c.1 ∧ c.1 < g.row) ∧ 0 ≤ c.2 ∧ c.2 < g.col := hc
    have hright : c.2 < m.col - 1 ↔ Inside g.row g.col (Direction.RIGHT.step c) := by
      simp only [Direction.step, Inside, h.col]
      omega
    have hdown : c.1 < (m.put c (mark g c .RIGHT (m.pMaze c))).row - 1 ↔
        Inside g.row g.col (Direction.DOWN.step c) := by
      simp only [Direction.step, Inside, Maze.put_row, h.row]
      omega
    have hleft : c.2 > 0 ↔ Inside g.row g.col (Direction.LEFT.step c) := by
      simp only [Direction.step, Inside]
      omega
    have hup : c.1 > 0 ↔ Inside g.row g.col (Direction.UP.step c) := by
      simp only [Direction.step, Inside]
      omega
    have h₁ := h.allow hc hval hright
    rw [Maze.put_self] at h₁
    have h₂ := h.allow hc (n := mark g c .RIGHT (m.pMaze c)) (by simpa using hval) hdown
    have h₃ := h.allow hc (n := mark g c .DOWN (mark g c .RIGHT (m.pMaze c)))
      (by simpa using hval) hleft
    have h₄ := h.allow hc (n := mark g c .LEFT (mark g c .DOWN (mark g c .RIGHT (m.pMaze c))))
      (by simpa using hval) hup
    rw [if_neg hwall, if_neg hwall]
    simp only [Direction.step] at h₁ h₂ h₃ h₄
    simp only [Option.bind_eq_bind, h₁, h₂, h₃, h₄, Option.bind_some]

theorem read_tracks (g : Grid) (fresh : Cell → Node) :
    ∃ m, Maze.read fresh g.row g.col g.data = some m ∧ Tracks g g.ways m := by
  have hinit : ∀ m : Maze, m.row = g.row ∧ m.col = g.col → ∀ c ∈ Maze.cells g.row g.col,
      m.initNode c.1 c.2 (g.data c) = some (m.put c ⟨c.1, c.2, g.data c, fun _ => NO⟩) ∧
        (m.put c ⟨c.1, c.2, g.data c, fun _ => NO⟩).row = g.row ∧
        (m.put c ⟨c.1, c.2, g.data c, fun _ => NO⟩).col = g.col := by
    rintro m ⟨hrow, hcol⟩ c hc
    rw [Maze.mem_cells] at hc
    exact ⟨Maze.modify_of_inside _ (by rwa [hrow, hcol]), hrow, hcol⟩
  obtain ⟨m₁, hloop₁, ⟨hrow, hcol⟩, hnodes₁⟩ :=
    Maze.foldlM_pointwise (f := fun c _ => ⟨c.1, c.2, g.data c, fun _ => NO⟩)
      (Maze.nodup_cells g.row g.col) hinit
      (m := Maze.construct fresh g.row g.col) ⟨rfl, rfl⟩
  have hnode₁ : ∀ c, Inside g.row g.col c →
      m₁.pMaze c = ⟨c.1, c.2, g.data c, fun _ => NO⟩ := fun c hc => by
    rw [hnodes₁ c, if_pos (Maze.mem_cells.mpr hc)]
  have htyped : Typed g m₁ := ⟨hrow, hcol, fun c hc => by rw [hnode₁ c hc]⟩
  have hmark : ∀ m : Maze, Typed g m → ∀ c ∈ Maze.cells g.row g.col,
      m.setNodeStateAt c.1 c.2 = some (m.put c (markAll g c (m.pMaze c))) ∧
        Typed g (m.put c (markAll g c (m.pMaze c))) := by
    intro m hm c hc
    rw [Maze.mem_cells] at hc
    exact ⟨hm.setNodeStateAt hc, hm.put (by rw [markAll_val, hm.val c hc])⟩
  obtain ⟨m₂, hloop₂, ht, hnodes₂⟩ :=
    Maze.foldlM_pointwise (f := fun c n => markAll g c n)
      (Maze.nodup_cells g.row g.col) hmark htyped
  have hnode₂ : ∀ c, Inside g.row g.col c → m₂.pMaze c = markAll g c (m₁.pMaze c) := fun c hc => by
    rw [hnodes₂ c, if_pos (Maze.mem_cells.mpr hc)]
  refine ⟨m₂, ?_, ht.row, ht.col, fun c hc => ?_, ht.val, fun c hc d => ?_⟩
  · rw [Maze.read, hloop₁, Option.bind_eq_bind, Option.bind_some, Maze.setNodeState, hrow, hcol]
    exact hloop₂
  · rw [hnode₂ c hc, markAll_cell, hnode₁ c hc]
    rfl
  · rw [hnode₂ c hc]
    exact markAll_state hc (fun d => by rw [hnode₁ c hc]) d

end Input

section Edges

variable {g : Grid} {unused : SimpleGraph Cell} {m : Maze} {c : Cell} {d : Direction}

/-- The node that both searches look at first. -/
theorem Tracks.first (h : Tracks g unused m) : ∃ first, m.node (0, 0) = some first ∧
    first.cell = Grid.entrance ∧ (first.val = 1 ↔ ¬ g.Open Grid.entrance) := by
  have hin : Inside g.row g.col Grid.entrance := Grid.inside_entrance
  refine ⟨m.pMaze Grid.entrance, Maze.node_of_inside (by rwa [h.row, h.col]), h.cell _ hin, ?_⟩
  rw [h.val _ hin]
  constructor
  · rintro hone ⟨-, hzero⟩
    rw [hone] at hzero
    cases hzero
  · intro hwall
    exact (g.binary _ hin).resolve_left fun hzero => hwall ⟨hin, hzero⟩

/-! ## Using an edge -/

/-- The nodes after the two assignments. -/
theorem Maze.close_eq {opposite : Direction} {c' : Cell} (hc : Inside m.row m.col c)
    (hc' : Inside m.row m.col c') (hne : c' ≠ c) :
    m.close d opposite c c' = some
      ((m.put c ((m.pMaze c).setState d NO)).put c' ((m.pMaze c').setState opposite NO)) := by
  rw [Maze.close, Maze.modify_of_inside _ hc, Option.bind_eq_bind, Option.bind_some,
    Maze.modify_of_inside _ (by simpa using hc'), Maze.put_pMaze, Function.update_of_ne hne]

/-- A way has two ends, and from each of them one direction. -/
theorem way_eq_iff {c' : Cell} {d' : Direction} : s(c', d'.step c') = s(c, d.step c) ↔
    c' = c ∧ d' = d ∨ c' = d.step c ∧ d' = d.opposite := by
  constructor
  · intro h
    obtain ⟨rfl, hstep⟩ | ⟨rfl, hstep⟩ := Sym2.eq_iff.mp h
    · exact Or.inl ⟨rfl, Direction.step_inj hstep⟩
    · exact Or.inr ⟨rfl, Direction.step_inj (hstep.trans (d.step_opposite c).symm)⟩
  · rintro (⟨rfl, rfl⟩ | ⟨rfl, rfl⟩)
    · rfl
    · rw [Direction.step_opposite, Sym2.eq_swap]

theorem Tracks.close (h : Tracks g unused m) (hle : unused ≤ g.ways)
    (hd : unused.Adj c (d.step c)) :
    ∃ m', m.close d d.opposite c (d.step c) = some m' ∧
      Tracks g (use unused c (d.step c)) m' := by
  obtain ⟨⟨hc, -⟩, ⟨hc', -⟩, -⟩ := hle hd
  have hne := d.step_ne c
  have hno : ¬ NO = YES := by decide
  refine ⟨_, Maze.close_eq (by rwa [h.row, h.col]) (by rwa [h.row, h.col]) hne, h.row, h.col,
    fun e he => ?_, fun e he => ?_, fun e he d' => ?_⟩
  · simp only [Maze.put_pMaze, Function.update_apply]
    split
    · next heq => rw [heq, Node.setState_cell, h.cell _ hc']
    · split
      · next heq => rw [heq, Node.setState_cell, h.cell _ hc]
      · exact h.cell e he
  · simp only [Maze.put_pMaze, Function.update_apply]
    split
    · next heq => rw [heq, Node.setState_val, h.val _ hc']
    · split
      · next heq => rw [heq, Node.setState_val, h.val _ hc]
      · exact h.val e he
  · rw [use_adj, Ne, way_eq_iff, ← h.state e he]
    simp only [Maze.put_pMaze, Function.update_apply]
    by_cases hfar : e = d.step c
    · subst hfar
      by_cases hd' : d' = d.opposite <;> simp [hne, hd', hno]
    · by_cases hnear : e = c
      · subst hnear
        by_cases hd' : d' = d <;> simp [Ne.symm hne, hd', hno]
      · simp [hfar, hnear]

/-- Nothing is left at a cell from which all four directions have been used. -/
theorem not_adj_of_directions (hle : unused ≤ g.ways)
    (hnone : ∀ d : Direction, ¬ unused.Adj c (d.step c)) (c' : Cell) : ¬ unused.Adj c c' := by
  intro hadj
  obtain ⟨-, -, d, rfl⟩ := hle hadj
  exact hnone d hadj

end Edges

end CppInOne.Algorithm
