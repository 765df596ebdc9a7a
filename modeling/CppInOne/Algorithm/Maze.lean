import Mathlib.Data.Int.Basic
import Mathlib.Data.List.Nodup
import Mathlib.Data.List.Range
import Mathlib.Logic.Function.Basic

/-!
# The mazes of the two search programs

`bfs.cpp` and `dfs.cpp` have the same nodes, the same `initNode` and `setNodeState` and the same
first part of `main`. Their class is split here: `Maze` is what both have in it, and the modules of
the two searches add the queue or the stack.

The array of nodes is allocated without values, so that an arbitrary `fresh` stands for what is in
it. `none` is an access outside of it. An `int` is an integer without bounds: no coordinate leaves
the range of the array by more than one. Only `bfs.cpp` computes the number of cells, see
`BfsMaze.create`.
-/

namespace CppInOne.Algorithm

/-- The positions of the array `_state`. -/
inductive Direction where
  | RIGHT
  | DOWN
  | LEFT
  | UP
  deriving DecidableEq, Repr

def YES : ℤ := 4

def NO : ℤ := 5

def star : ℤ := ('*'.toNat : ℤ)

/-- A row and a column. -/
abbrev Cell := ℤ × ℤ

structure Node where
  x : ℤ
  y : ℤ
  val : ℤ
  state : Direction → ℤ

namespace Node

def cell (n : Node) : Cell := (n.x, n.y)

def setState (n : Node) (d : Direction) (s : ℤ) : Node :=
  { n with state := Function.update n.state d s }

def setVal (n : Node) (v : ℤ) : Node := { n with val := v }

@[simp] theorem setState_cell (n : Node) (d : Direction) (s : ℤ) :
    (n.setState d s).cell = n.cell := rfl

@[simp] theorem setState_val (n : Node) (d : Direction) (s : ℤ) : (n.setState d s).val = n.val :=
  rfl

@[simp] theorem setState_state (n : Node) (d : Direction) (s : ℤ) :
    (n.setState d s).state = Function.update n.state d s := rfl

@[simp] theorem setVal_val (n : Node) (v : ℤ) : (n.setVal v).val = v := rfl

end Node

/-- A cell of an array with so many rows and columns. -/
def Inside (row col : ℤ) (c : Cell) : Prop := (0 ≤ c.1 ∧ c.1 < row) ∧ 0 ≤ c.2 ∧ c.2 < col

instance Inside.decidable (row col : ℤ) (c : Cell) : Decidable (Inside row col c) :=
  inferInstanceAs (Decidable ((0 ≤ c.1 ∧ c.1 < row) ∧ 0 ≤ c.2 ∧ c.2 < col))

structure Maze where
  row : ℤ
  col : ℤ
  pMaze : Cell → Node

namespace Maze

/-- `_pMaze[x][y]` -/
def node (m : Maze) (c : Cell) : Option Node :=
  if Inside m.row m.col c then some (m.pMaze c) else none

def put (m : Maze) (c : Cell) (n : Node) : Maze :=
  { m with pMaze := Function.update m.pMaze c n }

/-- An assignment to members of `_pMaze[x][y]`. -/
def modify (m : Maze) (c : Cell) (f : Node → Node) : Option Maze :=
  (m.node c).map fun n => m.put c (f n)

/-- `Maze(row, col)` -/
def construct (fresh : Cell → Node) (row col : ℤ) : Maze := ⟨row, col, fresh⟩

def initNode (m : Maze) (x y data : ℤ) : Option Maze :=
  m.modify (x, y) fun _ => ⟨x, y, data, fun _ => NO⟩

/-- `if (guard && _pMaze[i'][j']._val == 0) _pMaze[i][j]._state[d] = YES;` for the neighbour in the
`i'`-th row and the `j'`-th column. -/
def allow (guard : Prop) [Decidable guard] (neighbour c : Cell) (d : Direction) (m : Maze) :
    Option Maze :=
  if guard then do
    let n ← m.node neighbour
    if n.val = 0 then m.modify c (·.setState d YES) else some m
  else some m

/-- The body of the two loops of `setNodeState`. -/
def setNodeStateAt (m : Maze) (i j : ℤ) : Option Maze := do
  let n ← m.node (i, j)
  if n.val = 1 then some m
  else
    let m ← m.allow (j < m.col - 1) (i, j + 1) (i, j) .RIGHT
    let m ← m.allow (i < m.row - 1) (i + 1, j) (i, j) .DOWN
    let m ← m.allow (j > 0) (i, j - 1) (i, j) .LEFT
    m.allow (i > 0) (i - 1, j) (i, j) .UP

/-- `for (int i = 0; i < row; ++i) for (int j = 0; j < col; ++j)` -/
def cells (row col : ℤ) : List Cell :=
  (List.range row.toNat).flatMap fun i : ℕ =>
    (List.range col.toNat).map fun j : ℕ => ((i : ℤ), (j : ℤ))

def setNodeState (m : Maze) : Option Maze :=
  (cells m.row m.col).foldlM (fun m c => m.setNodeStateAt c.1 c.2) m

/-- `main` up to the search, for the numbers that are typed in. -/
def read (fresh : Cell → Node) (row col : ℤ) (data : Cell → ℤ) : Option Maze := do
  let m ← (cells row col).foldlM (fun m c => m.initNode c.1 c.2 (data c)) (construct fresh row col)
  m.setNodeState

/-- The two assignments with which a search marks the way between two nodes as used, in the
direction `d` from the first and in the direction `opposite` from the second. -/
def close (d opposite : Direction) (c c' : Cell) (m : Maze) : Option Maze := do
  let m ← m.modify c (·.setState d NO)
  m.modify c' (·.setState opposite NO)

/-- The two loops at the end of `showMazePath`. -/
def picture (m : Maze) : String :=
  String.join <| (List.range m.row.toNat).map fun i : ℕ =>
    String.join ((List.range m.col.toNat).map fun j : ℕ =>
      if (m.pMaze ((i : ℤ), (j : ℤ))).val = star then "* "
      else toString (m.pMaze ((i : ℤ), (j : ℤ))).val ++ " ") ++ "\n"

/-! ## Access -/

theorem node_of_inside {m : Maze} {c : Cell} (h : Inside m.row m.col c) :
    m.node c = some (m.pMaze c) :=
  if_pos h

theorem modify_of_inside {m : Maze} {c : Cell} (f : Node → Node) (h : Inside m.row m.col c) :
    m.modify c f = some (m.put c (f (m.pMaze c))) := by
  rw [modify, node_of_inside h, Option.map_some]

@[simp] theorem put_row (m : Maze) (c : Cell) (n : Node) : (m.put c n).row = m.row := rfl

@[simp] theorem put_col (m : Maze) (c : Cell) (n : Node) : (m.put c n).col = m.col := rfl

@[simp] theorem put_pMaze (m : Maze) (c : Cell) (n : Node) :
    (m.put c n).pMaze = Function.update m.pMaze c n := rfl

@[simp] theorem put_put (m : Maze) (c : Cell) (n n' : Node) :
    (m.put c n).put c n' = m.put c n' := by
  simp [put]

@[simp] theorem put_self (m : Maze) (c : Cell) : m.put c (m.pMaze c) = m := by
  simp [put]

/-! ## The loops over the array -/

theorem mem_cells {row col : ℤ} {c : Cell} : c ∈ cells row col ↔ Inside row col c := by
  simp only [cells, List.mem_flatMap, List.mem_range, List.mem_map, Inside]
  constructor
  · rintro ⟨i, hi, j, hj, rfl⟩
    dsimp only
    omega
  · rintro ⟨⟨h0, hrow⟩, h1, hcol⟩
    refine ⟨c.1.toNat, by omega, c.2.toNat, by omega, ?_⟩
    rw [Int.toNat_of_nonneg h0, Int.toNat_of_nonneg h1]

theorem nodup_cells (row col : ℤ) : (cells row col).Nodup := by
  refine List.nodup_flatMap.mpr ⟨fun i _ => ?_, ?_⟩
  · refine List.Nodup.map (fun j j' h => ?_) List.nodup_range
    exact Int.natCast_inj.mp (congrArg Prod.snd h)
  · refine List.nodup_range.imp fun hne => ?_
    intro c hc hc'
    obtain ⟨j, -, rfl⟩ := List.mem_map.mp hc
    obtain ⟨j', -, heq⟩ := List.mem_map.mp hc'
    exact hne (Int.natCast_inj.mp (congrArg Prod.fst heq)).symm

/-- A loop whose rounds change one node each. -/
theorem foldlM_pointwise {step : Maze → Cell → Option Maze} {J : Maze → Prop}
    {f : Cell → Node → Node} {cs : List Cell} (hcs : cs.Nodup)
    (hstep : ∀ m, J m → ∀ c ∈ cs, step m c = some (m.put c (f c (m.pMaze c))) ∧
      J (m.put c (f c (m.pMaze c)))) {m : Maze} (hm : J m) :
    ∃ m', cs.foldlM step m = some m' ∧ J m' ∧
      ∀ c, m'.pMaze c = if c ∈ cs then f c (m.pMaze c) else m.pMaze c := by
  induction cs generalizing m with
  | nil => exact ⟨m, rfl, hm, fun c => by simp⟩
  | cons a cs ih =>
    obtain ⟨ha, hcs⟩ := List.nodup_cons.mp hcs
    obtain ⟨hfirst, hJ⟩ := hstep m hm a List.mem_cons_self
    obtain ⟨m', hrest, hJ', hnodes⟩ :=
      ih hcs (fun m hm c hc => hstep m hm c (List.mem_cons_of_mem a hc)) hJ
    refine ⟨m', ?_, hJ', fun c => ?_⟩
    · rw [List.foldlM_cons, hfirst]
      exact hrest
    · rw [hnodes c, put_pMaze]
      by_cases hca : c = a
      · subst hca
        simp [ha]
      · simp [hca]

end Maze

end CppInOne.Algorithm
