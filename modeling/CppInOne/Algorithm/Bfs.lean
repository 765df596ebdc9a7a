import CppInOne.Algorithm.MazeWays
import CppInOne.Lib.BreadthFirst
import CppInOne.Lib.Loop

/-!
# The breadth-first search of `bfs.cpp`

The search keeps the cells it has come to in a queue, and for each of them the cell it came from in
the table `_pPath`. As in `dfs.cpp` only the ways between the cells are marked, so that a cell can
come into the queue several times, and its entry in the table is then overwritten.

A write outside of the table is left out, and a read outside of it is a fault; `accesses` are the
indexes that have been used. They are integers without bounds: an index that does not fit into an
`int` lies behind the table, because the number of its nodes does, and the first such index wraps
around to a negative number, which is outside as well (`index_step_int`).

## Main results

- `Inv` — the queue is in layers, and the accesses to the table are those of the reached cells
- `body_holds` — one round of the loop
- `searchMazePath_returns` — the search ends, and knows then whether there is a way to the exit
-/

namespace CppInOne.Algorithm

open EdgeSearch Grid Loop

/-- The class of `bfs.cpp`. The front of the queue is the head of the list. -/
structure BfsMaze extends Maze where
  queue : List Node
  pPath : List Node
  accesses : List ℤ

namespace BfsMaze

/-- `_pPath.resize(_row * _col)` fills the table with nodes of zeros. -/
def start (m : Maze) : BfsMaze :=
  ⟨m, [], List.replicate (m.row * m.col).toNat ⟨0, 0, 0, fun _ => 0⟩, []⟩

/-- `Maze(row, col)`, with the nodes as they are later on. `none`: the `int` product `_row * _col`
overflows. Where it wraps around, `resize` throws at a negative number, and otherwise the table is
too small. -/
def create (m : Maze) : Option BfsMaze := if m.row * m.col < 2 ^ 31 then some (start m) else none

def check (m : BfsMaze) (node : Node) : Bool := node.x = m.row - 1 ∧ node.y = m.col - 1

/-- `_pPath[index] = node` -/
def store (m : BfsMaze) (index : ℤ) (node : Node) : BfsMaze :=
  { m with
    pPath := if 0 ≤ index then m.pPath.set index.toNat node else m.pPath
    accesses := index :: m.accesses }

/-- `_pPath[index]` -/
def load (m : BfsMaze) (index : ℤ) : Option Node :=
  if 0 ≤ index then m.pPath[index.toNat]? else none

/-- What one of the four tests in the loop does when its state is `YES`, up to the `push`. -/
def visit (d opposite : Direction) (c c' : Cell) (index : ℤ) (m : BfsMaze) : Option BfsMaze := do
  let maze ← m.toMaze.close d opposite c c'
  let here ← maze.node c
  let next ← maze.node c'
  some { m.store index here with toMaze := maze, queue := m.queue ++ [next] }

/-- One of the four tests, for a direction, its opposite and the cell it leads to. -/
def branch (d opposite : Direction) (c c' : Cell) (index : ℤ) (m : BfsMaze) : Round BfsMaze :=
  match m.node c with
  | none => .fault
  | some node =>
    if node.state d = YES then
      (Round.ofOption (m.visit d opposite c c' index)).bind fun m =>
        match m.node c' with
        | none => .fault
        | some next => if m.check next then .done m else .next m
    else .next m

def pop (m : BfsMaze) : BfsMaze := { m with queue := m.queue.tail }

/-- One round of `while (!_queue.empty())`. -/
def body (m : BfsMaze) : Round BfsMaze :=
  match m.queue with
  | [] => .done m
  | top :: _ =>
    let x := top.x
    let y := top.y
    (branch .RIGHT .LEFT (x, y) (x, y + 1) (x * m.row + y + 1) m).bind fun m =>
      (branch .LEFT .RIGHT (x, y) (x, y - 1) (x * m.row + y - 1) m).bind fun m =>
        (branch .UP .DOWN (x, y) (x - 1, y) ((x - 1) * m.row + y) m).bind fun m =>
          (branch .DOWN .UP (x, y) (x + 1, y) ((x + 1) * m.row + y) m).bind fun m =>
            .next m.pop

/-- `searchMazePath`, for so many rounds of its loop. -/
def searchMazePath (m : BfsMaze) (rounds : ℕ) : Round BfsMaze :=
  match m.node (0, 0) with
  | none => .fault
  | some first =>
    if first.val = 1 then .done m else loop body rounds { m with queue := m.queue ++ [first] }

/-- The state of `showMazePath`, with the text it has printed. -/
structure Show where
  maze : BfsMaze
  x : ℤ
  y : ℤ
  out : String

/-- One round of the loop that goes back from the exit. -/
def backtrack (s : Show) : Round Show :=
  match s.maze.modify (s.x, s.y) (·.setVal star) with
  | none => .fault
  | some maze =>
    let m := { s.maze with toMaze := maze }
    if s.x = 0 ∧ s.y = 0 then .done { s with maze := m }
    else
      let index := s.x * m.row + s.y
      match m.load index with
      | none => .fault
      | some node =>
        .next { s with
          maze := { m with accesses := index :: m.accesses }
          x := node.x
          y := node.y }

/-- `showMazePath`, for so many rounds of its loop. -/
def showMazePath (m : BfsMaze) (rounds : ℕ) : Round Show :=
  match m.queue with
  | [] => .done ⟨m, 0, 0, "Path is Error!\n"⟩
  | _ =>
    (loop backtrack rounds ⟨m, m.row - 1, m.col - 1, ""⟩).finish fun s =>
      { s with out := s.maze.picture }

end BfsMaze

/-! ## The table -/

namespace Grid

/-- Where the programs look for the predecessor of a cell. -/
def index (g : Grid) (c : Cell) : ℤ := c.1 * g.row + c.2

/-- Every cell has its own place, and those that can be reached have it inside of the table. -/
structure Addressed (g : Grid) : Prop where
  injective : ∀ c c', Inside g.row g.col c → Inside g.row g.col c' → g.index c = g.index c' → c = c'
  bounded : ∀ c, g.ways.Reachable entrance c → g.index c < g.row * g.col

theorem index_nonneg {g : Grid} {c : Cell} (hc : Inside g.row g.col c) : 0 ≤ g.index c := by
  have hrow := g.row_pos
  obtain ⟨⟨hx, -⟩, hy, -⟩ := hc
  have hmul : 0 ≤ c.1 * g.row := Int.mul_nonneg hx (by omega)
  unfold index
  omega

/-- Next to a cell with its place in the table, the `int` tells whether a place is outside. -/
theorem index_step_int {g : Grid} (hint : g.row * g.col < 2 ^ 31) {c : Cell} {d : Direction}
    (hc : 0 ≤ g.index c ∧ g.index c < g.row * g.col)
    (hc' : Inside g.row g.col (d.step c)) :
    (0 ≤ (g.index (d.step c)).bmod (2 ^ 32) ∧
        (g.index (d.step c)).bmod (2 ^ 32) < g.row * g.col) ↔
      g.index (d.step c) < g.row * g.col := by
  have hrow := g.row_pos
  have hle : g.row * 1 ≤ g.row * g.col :=
    Int.mul_le_mul_of_nonneg_left g.col_pos (by omega)
  have hnonneg := index_nonneg hc'
  have hstep : g.index (d.step c) ≤ g.index c + g.row := by
    unfold index
    cases d <;> simp only [Direction.step, Int.add_mul, Int.sub_mul, Int.one_mul] <;> omega
  by_cases hfits : g.index (d.step c) < 2 ^ 31
  · rw [Int.bmod_eq_of_le (by simp; omega) (by simp; omega)]
    omega
  · -- it wraps around to a negative number
    have hwrap : (g.index (d.step c)).bmod (2 ^ 32) = g.index (d.step c) - 2 ^ 32 := by
      rw [← Int.sub_bmod_right, Int.bmod_eq_of_le (by simp; omega) (by simp; omega)]
      rfl
    rw [hwrap]
    omega

end Grid

namespace BfsMaze

/-- The cells in the queue. -/
def cells (m : BfsMaze) : List Cell := m.queue.map Node.cell

/-- The cell in the table for `c`. -/
def pred (g : Grid) (m : BfsMaze) (c : Cell) : Option Cell :=
  m.pPath[(g.index c).toNat]?.map Node.cell

/-- What holds in the loop: `unused` are the ways that the search can still take. -/
structure Inv (g : Grid) (unused : SimpleGraph Cell) (m : BfsMaze) : Prop where
  tracks : Tracks g unused m.toMaze
  sound : Sound g.ways unused entrance m.cells
  layered : Layered g.ways unused entrance m.cells
  size : m.pPath.length = (g.row * g.col).toNat
  accessed : ∀ i, i ∈ m.accesses ↔
    ∃ c, Reached g.ways unused entrance c ∧ c ≠ entrance ∧ i = g.index c
  traced : g.Addressed → Traced g.ways unused entrance (m.pred g)

variable {g : Grid} {unused : SimpleGraph Cell} {m : BfsMaze} {c : Cell} {cs : List Cell}

theorem Inv.opened (h : Inv g unused m) (hopen : g.Open entrance)
    (hc : Reached g.ways unused entrance c) : g.Open c :=
  open_of_reachable hopen (h.sound.reachable c hc)

/-- A place in the table that is written, and the others. -/
theorem pred_store (node : Node) (maze : Maze) (queue : List Node) (haddr : g.Addressed)
    (hsize : m.pPath.length = (g.row * g.col).toNat) {c c' : Cell} (hc : Inside g.row g.col c)
    (hreach : g.ways.Reachable entrance c) (hc' : Inside g.row g.col c') :
    pred g { m.store (g.index c) node with toMaze := maze, queue := queue } c' =
      if c' = c then some node.cell else m.pred g c' := by
  have hnonneg := index_nonneg hc
  have hnonneg' := index_nonneg hc'
  have hbound := haddr.bounded c hreach
  simp only [pred, store, if_pos hnonneg]
  by_cases heq : c' = c
  · subst heq
    rw [if_pos rfl, List.getElem?_set_self (by omega), Option.map_some]
  · have hne : (g.index c).toNat ≠ (g.index c').toNat := by
      intro hindex
      apply heq
      apply haddr.injective c' c hc' hc
      omega
    rw [if_neg heq, List.getElem?_set_ne hne]

/-! ## One way -/

/-- The state after a way from `c` to `c'`. -/
def taken (g : Grid) (m : BfsMaze) (maze : Maze) (c c' : Cell) : BfsMaze :=
  { m.store (g.index c') (maze.pMaze c) with
    toMaze := maze, queue := m.queue ++ [maze.pMaze c'] }

theorem cells_taken {maze : Maze} {c' : Cell} (hcell : (maze.pMaze c').cell = c') :
    (taken g m maze c c').cells = m.cells ++ [c'] := by
  rw [cells, taken, List.map_append, List.map_singleton, hcell, cells]

theorem Inv.visit_eq (h : Inv g unused m) {d : Direction} (hd : unused.Adj c (d.step c)) :
    ∃ maze, Tracks g (use unused c (d.step c)) maze ∧
      m.visit d d.opposite c (d.step c) (g.index (d.step c)) =
        some (taken g m maze c (d.step c)) := by
  obtain ⟨⟨hc, -⟩, ⟨hc', -⟩, -⟩ := h.sound.le hd
  obtain ⟨maze, hclose, hmaze⟩ := h.tracks.close h.sound.le hd
  refine ⟨maze, hmaze, ?_⟩
  unfold BfsMaze.visit
  simp only [hclose, Option.bind_eq_bind, Option.bind_some,
    Maze.node_of_inside (m := maze) (c := c) (by rwa [hmaze.row, hmaze.col]),
    Maze.node_of_inside (m := maze) (c := d.step c) (by rwa [hmaze.row, hmaze.col])]
  rfl

/-- The way adds the place of the cell it leads to. -/
theorem Inv.accessed_taken (h : Inv g unused m) {c' : Cell} (hadj : unused.Adj c c')
    (hc : Reached g.ways unused entrance c) (hne : c' ≠ entrance) (maze : Maze) (i : ℤ) :
    i ∈ (taken g m maze c c').accesses ↔
      ∃ w, Reached g.ways (use unused c c') entrance w ∧ w ≠ entrance ∧ i = g.index w := by
  simp only [taken, store, List.mem_cons, h.accessed i, reached_use h.sound.le hadj]
  constructor
  · rintro (rfl | ⟨w, hw, hne', rfl⟩)
    · exact ⟨c', Or.inr (Or.inr rfl), hne, rfl⟩
    · exact ⟨w, Or.inl hw, hne', rfl⟩
  · rintro ⟨w, hw | rfl | rfl, hne', rfl⟩
    · exact Or.inr ⟨w, hw, hne', rfl⟩
    · exact Or.inr ⟨w, hc, hne', rfl⟩
    · exact Or.inl rfl

/-- Take a way from the front of the queue. -/
theorem Inv.taken (h : Inv g unused m) (hopen : g.Open entrance) (hcells : m.cells = c :: cs)
    {c' : Cell} (hadj : unused.Adj c c') {maze : Maze} (hmaze : Tracks g (use unused c c') maze) :
    Inv g (use unused c c') (taken g m maze c c') := by
  obtain ⟨⟨hc, -⟩, ⟨hc', -⟩, -⟩ := h.sound.le hadj
  have hmem : c ∈ m.cells := hcells ▸ List.mem_cons_self
  have hsound := hcells ▸ h.sound
  have hlayered := hcells ▸ h.layered
  have hreached : Reached g.ways unused entrance c := h.sound.waits c hmem
  have hdist := hlayered.dist_of_unused g.coloring hsound hadj
  have hne : c' ≠ entrance := by
    rintro rfl
    rw [SimpleGraph.dist_self] at hdist
    omega
  have hcells' := cells_taken (g := g) (m := m) (c := c) (hmaze.cell c' hc')
  refine ⟨hmaze, ?_, ?_, ?_, h.accessed_taken hadj hreached hne maze, ?_⟩
  · apply h.sound.take hmem hadj
    intro w
    rw [hcells', List.mem_append, List.mem_singleton]
  · rw [hcells', hcells]
    exact hlayered.take g.coloring hsound hadj
  · simp only [BfsMaze.taken, store]
    split
    · rw [List.length_set, h.size]
    · exact h.size
  · intro haddr
    have hreach : g.ways.Reachable entrance c' :=
      (h.sound.reachable c hreached).trans (h.sound.le hadj).reachable
    have hpred : ∀ w, Inside g.row g.col w → (BfsMaze.taken g m maze c c').pred g w =
        if w = c' then some (maze.pMaze c).cell else m.pred g w := fun w =>
      pred_store (maze.pMaze c) maze (m.queue ++ [maze.pMaze c']) haddr h.size hc' hreach
    apply (h.traced haddr).take hlayered g.coloring hsound hadj
    · rw [hpred _ hc', if_pos rfl, hmaze.cell c hc]
    · intro w hw hne'
      rw [hpred w (h.opened hopen hw).1, if_neg hne']

/-- What holds between the four tests: those of the directions `dirs` have been made. -/
structure Visited (g : Grid) (k : ℕ) (c : Cell) (dirs : List Direction)
    (unused : SimpleGraph Cell) (m : BfsMaze) : Prop where
  inv : Inv g unused m
  exit : ¬ Reached g.ways unused entrance g.exit
  front : m.cells.head? = some c
  used : ∀ d ∈ dirs, ¬ unused.Adj c (d.step c)
  cost_le : cost unused m.cells ≤ k

/-- What holds when the search has returned. -/
structure Result (g : Grid) (unused : SimpleGraph Cell) (m : BfsMaze) : Prop where
  inv : Inv g unused m
  found : m.queue ≠ [] ↔ Reached g.ways unused entrance g.exit
  solved : m.queue ≠ [] ↔ g.Solvable

/-- The exit has come into the queue. -/
theorem Inv.result_found (h : Inv g unused m) (hopen : g.Open entrance) (hne : m.cells ≠ [])
    (hexit : Reached g.ways unused entrance g.exit) : Result g unused m := by
  have hne : m.queue ≠ [] := by
    intro hnil
    apply hne
    rw [cells, hnil, List.map_nil]
  exact ⟨h, iff_of_true hne hexit, iff_of_true hne ⟨hopen, h.sound.reachable _ hexit⟩⟩

theorem Inv.result_nil (h : Inv g unused m) (hexit : ¬ Reached g.ways unused entrance g.exit)
    (hnil : m.queue = []) : Result g unused m := by
  have hcells : m.cells = [] := by rw [cells, hnil, List.map_nil]
  refine ⟨h, iff_of_false (fun hne => hne hnil) hexit, iff_of_false (fun hne => hne hnil) ?_⟩
  rintro ⟨-, hreach⟩
  exact hexit ((hcells ▸ h.sound).complete hreach)

theorem branch_of_not_adj (h : Tracks g unused m.toMaze) (hc : Inside g.row g.col c)
    {d : Direction} (hd : ¬ unused.Adj c (d.step c)) (opposite : Direction) (c' : Cell)
    (index : ℤ) : branch d opposite c c' index m = .next m := by
  unfold branch
  rw [Maze.node_of_inside (by rwa [h.row, h.col])]
  exact if_neg fun hyes => hd ((h.state c hc d).mp hyes)

theorem check_iff (h : Tracks g unused m.toMaze) (hc : Inside g.row g.col c) :
    m.check (m.pMaze c) = true ↔ c = g.exit := by
  have hx : (m.pMaze c).x = c.1 := congrArg Prod.fst (h.cell c hc)
  have hy : (m.pMaze c).y = c.2 := congrArg Prod.snd (h.cell c hc)
  rw [check, decide_eq_true_iff, h.row, h.col, hx, hy, Prod.ext_iff, exit]

/-- A way that does not lead to the exit. -/
theorem Visited.taken {k : ℕ} {dirs : List Direction} (h : Visited g k c dirs unused m)
    {d : Direction} (hd : unused.Adj c (d.step c)) {m' : BfsMaze}
    (hinv : Inv g (use unused c (d.step c)) m') (hcells : m'.cells = m.cells ++ [d.step c])
    (hexit : d.step c ≠ g.exit) :
    Visited g k c (d :: dirs) (use unused c (d.step c)) m' := by
  obtain ⟨cs, hfront⟩ := List.head?_eq_some_iff.mp h.front
  have hreached : Reached g.ways unused entrance c :=
    h.inv.sound.waits c (hfront ▸ List.mem_cons_self)
  refine ⟨hinv, ?_, ?_, ?_, ?_⟩
  · intro hexit'
    obtain hexit' | heq | heq := (reached_use h.inv.sound.le hd).mp hexit'
    · exact h.exit hexit'
    · exact h.exit (heq ▸ hreached)
    · exact hexit heq.symm
  · rw [hcells, hfront]
    rfl
  · intro d' hd' hadj
    obtain rfl | hd' := List.mem_cons.mp hd'
    · exact not_use_adj hadj
    · exact h.used d' hd' (use_le hadj)
  · have hlt : cost (use unused c (d.step c)) m'.cells < cost unused m.cells := by
      apply cost_use g.finite_ways h.inv.sound.le hd
      rw [hcells, List.length_append, List.length_singleton]
    exact hlt.le.trans h.cost_le

theorem Visited.branch {k : ℕ} {dirs : List Direction} (h : Visited g k c dirs unused m)
    (hopen : g.Open entrance) (d : Direction) {index : ℤ} (hindex : index = g.index (d.step c)) :
    (branch d d.opposite c (d.step c) index m).Holds
      (fun m' => ∃ unused', Visited g k c (d :: dirs) unused' m')
      (fun m' => ∃ unused', Result g unused' m') := by
  obtain ⟨cs, hcells⟩ := List.head?_eq_some_iff.mp h.front
  have hreached : Reached g.ways unused entrance c :=
    h.inv.sound.waits c (hcells ▸ List.mem_cons_self)
  have hc : Inside g.row g.col c := (h.inv.opened hopen hreached).1
  by_cases hd : unused.Adj c (d.step c)
  · obtain ⟨maze, hmaze, hvisit⟩ := h.inv.visit_eq hd
    have hc' : Inside g.row g.col (d.step c) := (h.inv.sound.le hd).2.1.1
    have hinv := h.inv.taken hopen hcells hd hmaze
    have hcells' := cells_taken (g := g) (m := m) (c := c) (hmaze.cell _ hc')
    unfold BfsMaze.branch
    rw [Maze.node_of_inside (by rwa [h.inv.tracks.row, h.inv.tracks.col])]
    dsimp only
    rw [if_pos ((h.inv.tracks.state c hc d).mpr hd), hindex, hvisit, Round.ofOption_some,
      Round.next_bind, Maze.node_of_inside (by rwa [hinv.tracks.row, hinv.tracks.col])]
    dsimp only
    split
    · next hcheck =>
      have hexit := (check_iff hinv.tracks hc').mp hcheck
      refine ⟨_, hinv.result_found hopen ?_ ?_⟩
      · rw [hcells']
        exact List.concat_ne_nil _ _
      · rw [← hexit]
        exact (reached_use h.inv.sound.le hd).mpr (Or.inr (Or.inr rfl))
    · next hcheck =>
      exact ⟨_, h.taken hd hinv hcells' (mt (check_iff hinv.tracks hc').mpr hcheck)⟩
  · rw [branch_of_not_adj h.inv.tracks hc hd]
    refine ⟨unused, h.inv, h.exit, h.front, fun d' hd' => ?_, h.cost_le⟩
    obtain rfl | hd' := List.mem_cons.mp hd'
    · exact hd
    · exact h.used d' hd'

/-! ## One round -/

/-- Take the front of the queue off when no way is left at it. -/
theorem Inv.pop (h : Inv g unused m) (hcells : m.cells = c :: cs)
    (hnone : ∀ d : Direction, ¬ unused.Adj c (d.step c)) :
    Inv g unused m.pop ∧ cost unused m.pop.cells < cost unused m.cells := by
  have hcells' : m.pop.cells = cs := by
    rw [BfsMaze.pop, cells, List.map_tail]
    exact congrArg List.tail hcells
  have hnone := not_adj_of_directions h.sound.le hnone
  have hsound := hcells ▸ h.sound
  refine ⟨⟨h.tracks, ?_, ?_, h.size, h.accessed, h.traced⟩, ?_⟩
  · rw [hcells']
    exact hsound.drop hnone
  · rw [hcells']
    exact (hcells ▸ h.layered).drop hsound hnone
  · rw [hcells', hcells]
    exact cost_drop

theorem body_holds (h : Inv g unused m) (hopen : g.Open entrance)
    (hexit : ¬ Reached g.ways unused entrance g.exit) :
    (body m).Holds
      (fun m' => ∃ unused', Inv g unused' m' ∧ ¬ Reached g.ways unused' entrance g.exit ∧
        cost unused' m'.cells < cost unused m.cells)
      (fun m' => ∃ unused', Result g unused' m') := by
  unfold body
  split
  · next hqueue => exact ⟨unused, h.result_nil hexit hqueue⟩
  · next top rest hqueue =>
    have hfront : m.cells.head? = some top.cell := by
      rw [cells, hqueue, List.map_cons, List.head?_cons]
    have hindex : ∀ (d : Direction) (m' : BfsMaze) (unused' : SimpleGraph Cell), Inv g unused' m' →
        (d.step top.cell).1 * m'.row + (d.step top.cell).2 = g.index (d.step top.cell) := by
      intro d m' unused' hm'
      rw [Grid.index, hm'.tracks.row]
    have hfirst : Visited g (cost unused m.cells) top.cell [] unused m :=
      ⟨h, hexit, hfront, fun d hd => absurd hd List.not_mem_nil, le_rfl⟩
    refine (hfirst.branch hopen .RIGHT ?_).bind ?_
    · rw [← hindex _ m unused h]
      exact Int.add_assoc ..
    rintro m₁ ⟨unused₁, h₁⟩
    refine (h₁.branch hopen .LEFT ?_).bind ?_
    · rw [← hindex _ m₁ unused₁ h₁.inv]
      exact Int.add_sub_assoc ..
    rintro m₂ ⟨unused₂, h₂⟩
    refine (h₂.branch hopen .UP (hindex _ m₂ unused₂ h₂.inv)).bind ?_
    rintro m₃ ⟨unused₃, h₃⟩
    refine (h₃.branch hopen .DOWN (hindex _ m₃ unused₃ h₃.inv)).bind ?_
    rintro m₄ ⟨unused₄, h₄⟩
    obtain ⟨cs, hcells⟩ := List.head?_eq_some_iff.mp h₄.front
    have hnone : ∀ d : Direction, ¬ unused₄.Adj top.cell (d.step top.cell) := by
      intro d
      apply h₄.used
      cases d <;> simp
    obtain ⟨hinv, hlt⟩ := h₄.inv.pop hcells hnone
    exact ⟨unused₄, hinv, h₄.exit, hlt.trans_le h₄.cost_le⟩

/-! ## The search -/

theorem start_inv {maze : Maze} (h : Tracks g g.ways maze) {queue : List Node}
    (hsound : Sound g.ways g.ways entrance (queue.map Node.cell))
    (hlayered : Layered g.ways g.ways entrance (queue.map Node.cell)) :
    Inv g g.ways { start maze with queue := queue } where
  tracks := h
  sound := hsound
  layered := hlayered
  size := by rw [start, List.length_replicate, h.row, h.col]
  accessed i := by
    constructor
    · intro hi
      cases hi
    · rintro ⟨c, hc, hne, -⟩
      exact absurd (reached_self.mp hc) hne
  traced _ := Traced.initial _

/-- The search of a maze that has just been read. -/
theorem searchMazePath_cases {maze : Maze} (h : Tracks g g.ways maze) :
    (¬ g.Open entrance ∧ ∀ n, (start maze).searchMazePath n = .done (start maze)) ∨
      g.Open entrance ∧ ∃ first, first.cell = entrance ∧
        (start maze).searchMazePath =
          fun n => loop body n { start maze with queue := [first] } := by
  obtain ⟨first, hnode, hfirst, hval⟩ := h.first
  have hnode : (start maze).node (0, 0) = some first := hnode
  by_cases hopen : g.Open entrance
  · refine Or.inr ⟨hopen, first, hfirst, ?_⟩
    funext n
    rw [searchMazePath, hnode]
    exact if_neg fun hone => hval.mp hone hopen
  · refine Or.inl ⟨hopen, fun n => ?_⟩
    rw [searchMazePath, hnode]
    exact if_pos (hval.mpr hopen)

/-- In a maze of more than one cell the search ends, without leaving the array of nodes. -/
theorem searchMazePath_returns {maze : Maze} (h : Tracks g g.ways maze)
    (hne : g.exit ≠ entrance) :
    ∃ m unused, Returns (start maze).searchMazePath m ∧ Result g unused m := by
  have hexit : ¬ Reached g.ways g.ways entrance g.exit := fun hreached =>
    hne (reached_self.mp hreached)
  obtain ⟨hwall, hdone⟩ | ⟨hopen, first, hfirst, hloop⟩ := searchMazePath_cases h
  · have hsound : Sound g.ways g.ways entrance [] :=
      sound_of_isolated fun c hadj => hwall hadj.1
    have hinv : Inv g g.ways (start maze) := start_inv h hsound layered_nil
    exact ⟨start maze, g.ways, ⟨0, fun n _ => hdone n⟩, hinv.result_nil hexit rfl⟩
  · have hcells : [first].map Node.cell = [entrance] := by
      rw [List.map_singleton, hfirst]
    have hinv : Inv g g.ways { start maze with queue := [first] } :=
      start_inv h (hcells ▸ Sound.initial) (hcells ▸ Layered.initial)
    have hround : ∀ unused m, Inv g unused m ∧ ¬ Reached g.ways unused entrance g.exit →
        (body m).Holds (fun m' => ∃ unused', (Inv g unused' m' ∧
          ¬ Reached g.ways unused' entrance g.exit) ∧
            cost unused' m'.cells < cost unused m.cells)
          (fun m' => ∃ unused', Result g unused' m') := by
      rintro unused m ⟨hm, hnot⟩
      refine (body_holds hm hopen hnot).mono ?_ fun _ => id
      rintro m' ⟨unused', hm', hnot', hlt⟩
      exact ⟨unused', ⟨hm', hnot'⟩, hlt⟩
    obtain ⟨m, hm, unused, hresult⟩ :=
      loop_returns (fun unused (m : BfsMaze) => cost unused m.cells) hround ⟨hinv, hexit⟩
    rw [hloop]
    exact ⟨m, unused, hm, hresult⟩

/-- The error message is for an empty queue. -/
theorem showMazePath_fails_iff :
    (∀ n, m.showMazePath n = .done ⟨m, 0, 0, "Path is Error!\n"⟩) ↔ m.queue = [] := by
  constructor
  · intro hshow
    by_contra hne
    have hfirst := hshow 0
    unfold showMazePath at hfirst
    split at hfirst
    · next hnil => exact hne hnil
    · cases hfirst
  · intro hnil n
    unfold showMazePath
    rw [hnil]

end BfsMaze

end CppInOne.Algorithm
