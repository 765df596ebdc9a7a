import CppInOne.Algorithm.MazeWays
import CppInOne.Lib.Loop

/-!
# The depth-first search of `dfs.cpp`

The search keeps the way it has come as a stack. It does not remember which cells it has seen: it
only marks the ways between them as used, and takes the last cell off when no way is left at it.

## Main results

- `Inv` — the stack is a way from the entrance, and every used way leads to a cell that is on the
  stack or has nothing left
- `body_holds` — one round of the loop
- `searchMazePath_decides` — the search ends, and finds the exit if there is a way to it
-/

namespace CppInOne.Algorithm

open EdgeSearch Grid Loop

/-- The class of `dfs.cpp`. The top of the stack is the head of the list. -/
structure DfsMaze extends Maze where
  stack : List Node

namespace DfsMaze

def start (m : Maze) : DfsMaze := ⟨m, []⟩

/-- One of the four tests in the loop, for a direction, its opposite and the cell it leads to; after
the `push` comes a `continue`. -/
def branch (d opposite : Direction) (c c' : Cell) (otherwise : DfsMaze → Round DfsMaze)
    (m : DfsMaze) : Round DfsMaze :=
  match m.node c with
  | none => .fault
  | some node =>
    if node.state d = YES then
      .ofOption do
        let maze ← m.toMaze.close d opposite c c'
        let next ← maze.node c'
        some { m with toMaze := maze, stack := next :: m.stack }
    else otherwise m

def pop (m : DfsMaze) : DfsMaze := { m with stack := m.stack.tail }

/-- One round of `while (!_stack.empty())`. -/
def body (m : DfsMaze) : Round DfsMaze :=
  match m.stack with
  | [] => .done m
  | top :: _ =>
    let x := top.x
    let y := top.y
    if x = m.row - 1 ∧ y = m.col - 1 then .done m
    else
      m |>
      (branch .RIGHT .LEFT (x, y) (x, y + 1) <|
        branch .LEFT .RIGHT (x, y) (x, y - 1) <|
          branch .UP .DOWN (x, y) (x - 1, y) <|
            branch .DOWN .UP (x, y) (x + 1, y) fun m => .next m.pop)

/-- `searchMazePath`, for so many rounds of its loop. -/
def searchMazePath (m : DfsMaze) (rounds : ℕ) : Round DfsMaze :=
  match m.node (0, 0) with
  | none => .fault
  | some first =>
    if first.val = 1 then .done m else loop body rounds { m with stack := first :: m.stack }

/-- `showMazePath`, with the text it prints. -/
def showMazePath (m : DfsMaze) : Option (DfsMaze × String) :=
  match m.stack with
  | [] => some (m, "Path is Error!\n")
  | _ => do
    let maze ← m.stack.foldlM (fun maze top => maze.modify top.cell (·.setVal star)) m.toMaze
    some ({ m with toMaze := maze, stack := [] }, maze.picture)

/-- The cells on the stack, the top first. -/
def cells (m : DfsMaze) : List Cell := m.stack.map Node.cell

/-- What holds at the top of the loop: `unused` are the ways that the search can still take. -/
structure Inv (g : Grid) (unused : SimpleGraph Cell) (m : DfsMaze) : Prop where
  tracks : Tracks g unused m.toMaze
  sound : Sound g.ways unused entrance m.cells
  chain : m.cells.IsChain g.ways.Adj
  bottom : ∀ c ∈ m.cells.getLast?, c = entrance
  exit : Reached g.ways unused entrance g.exit → m.cells.head? = some g.exit

/-- A round has come closer to the end. -/
def Less (g : Grid) (unused : SimpleGraph Cell) (m m' : DfsMaze) : Prop :=
  ∃ unused', Inv g unused' m' ∧ cost unused' m'.cells < cost unused m.cells

/-- What a round does with the ways and the stack when the search goes on. -/
inductive Move (g : Grid) (unused : SimpleGraph Cell) (m : DfsMaze) :
    SimpleGraph Cell → DfsMaze → Prop
  | push {c : Cell} {cs : List Cell} {d : Direction} {m' : DfsMaze} (hcells : m.cells = c :: cs)
      (hexit : c ≠ g.exit) (hd : unused.Adj c (d.step c))
      (hmaze : Tracks g (use unused c (d.step c)) m'.toMaze)
      (hcells' : m'.cells = d.step c :: m.cells) : Move g unused m (use unused c (d.step c)) m'
  | pop {c : Cell} {cs : List Cell} (hcells : m.cells = c :: cs) (hexit : c ≠ g.exit)
      (hnone : ∀ d : Direction, ¬ unused.Adj c (d.step c)) : Move g unused m unused m.pop

/-- A way from the entrance to the exit, cell by cell. -/
structure Leads (g : Grid) (cells : List Cell) : Prop where
  first : cells.head? = some entrance
  last : cells.getLast? = some g.exit
  chain : cells.IsChain g.ways.Adj

/-- What holds when the search has returned. -/
structure Result (g : Grid) (m : DfsMaze) : Prop where
  opened : ∀ c ∈ m.cells, g.Open c
  solved : m.stack ≠ [] ↔ g.Solvable
  leads : m.stack ≠ [] → Leads g m.cells.reverse

variable {g : Grid} {unused : SimpleGraph Cell} {m : DfsMaze}

/-! ## One round -/

theorem pop_cells : m.pop.cells = m.cells.tail := List.map_tail

/-- A cell on the stack is not a wall. -/
theorem Inv.opened (h : Inv g unused m) (hopen : g.Open entrance) {c : Cell} (hc : c ∈ m.cells) :
    g.Open c :=
  open_of_reachable hopen (h.sound.reachable c (h.sound.waits c hc))

/-- Take a way from the top of the stack. -/
theorem Inv.push (h : Inv g unused m) {c : Cell} {cs : List Cell} (hcells : m.cells = c :: cs)
    (hexit : c ≠ g.exit) {d : Direction} (hd : unused.Adj c (d.step c)) {m' : DfsMaze}
    (hmaze : Tracks g (use unused c (d.step c)) m'.toMaze)
    (hcells' : m'.cells = d.step c :: m.cells) :
    Inv g (use unused c (d.step c)) m' ∧
      cost (use unused c (d.step c)) m'.cells < cost unused m.cells := by
  have hmem : c ∈ m.cells := hcells ▸ List.mem_cons_self
  refine ⟨⟨hmaze, ?_, ?_, ?_, ?_⟩, ?_⟩
  · apply h.sound.take hmem hd
    intro c'
    rw [hcells', List.mem_cons, Or.comm]
  · rw [hcells', hcells, List.isChain_cons_cons, ← hcells]
    exact ⟨(h.sound.le hd).symm, h.chain⟩
  · intro c' hc'
    rw [hcells', hcells, List.getLast?_cons_cons, ← hcells] at hc'
    exact h.bottom c' hc'
  · intro hreached
    have hbefore : ¬ Reached g.ways unused entrance g.exit := by
      intro hbefore
      have hhead := h.exit hbefore
      rw [hcells] at hhead
      exact hexit (Option.some.inj hhead)
    obtain hreached | heq | heq := (reached_use h.sound.le hd).mp hreached
    · exact absurd hreached hbefore
    · exact absurd heq.symm hexit
    · rw [hcells', heq]
      rfl
  · exact cost_use g.finite_ways h.sound.le hd (by rw [hcells', List.length_cons])

/-- Take the top of the stack off when no way is left at it. -/
theorem Inv.pop (h : Inv g unused m) {c : Cell} {cs : List Cell} (hcells : m.cells = c :: cs)
    (hexit : c ≠ g.exit) (hnone : ∀ d : Direction, ¬ unused.Adj c (d.step c)) :
    Inv g unused m.pop ∧ cost unused m.pop.cells < cost unused m.cells := by
  have hcells' : m.pop.cells = cs := by
    rw [pop_cells, hcells, List.tail_cons]
  refine ⟨⟨h.tracks, ?_, ?_, ?_, ?_⟩, ?_⟩
  · rw [hcells']
    exact (hcells ▸ h.sound).drop (not_adj_of_directions h.sound.le hnone)
  · rw [hcells']
    exact (hcells ▸ h.chain).of_cons
  · intro c' hc'
    rw [hcells'] at hc'
    apply h.bottom c'
    rw [hcells, List.getLast?_cons, Option.mem_some_iff, Option.mem_def.mp hc']
    rfl
  · intro hreached
    have hhead := h.exit hreached
    rw [hcells] at hhead
    exact absurd (Option.some.inj hhead) hexit
  · rw [hcells', hcells]
    exact cost_drop

/-- **Step lemma**: a move keeps the invariant and comes closer to the end. -/
theorem Inv.move (h : Inv g unused m) {unused' : SimpleGraph Cell} {m' : DfsMaze}
    (hmove : Move g unused m unused' m') :
    Inv g unused' m' ∧ cost unused' m'.cells < cost unused m.cells := by
  cases hmove with
  | push hcells hexit hd hmaze hcells' => exact h.push hcells hexit hd hmaze hcells'
  | pop hcells hexit hnone => exact h.pop hcells hexit hnone

theorem branch_holds (h : Inv g unused m) (hopen : g.Open entrance) {c : Cell} {cs : List Cell}
    (hcells : m.cells = c :: cs) (hexit : c ≠ g.exit) (d : Direction)
    {otherwise : DfsMaze → Round DfsMaze} {Q : DfsMaze → Prop}
    (hother : ¬ unused.Adj c (d.step c) →
      (otherwise m).Holds (fun m' => ∃ unused', Move g unused m unused' m') Q) :
    (branch d d.opposite c (d.step c) otherwise m).Holds
      (fun m' => ∃ unused', Move g unused m unused' m') Q := by
  have hc : Inside g.row g.col c := (h.opened hopen (hcells ▸ List.mem_cons_self)).1
  unfold branch
  rw [Maze.node_of_inside (by rwa [h.tracks.row, h.tracks.col])]
  dsimp only
  split
  · next hyes =>
    have hd := (h.tracks.state c hc d).mp hyes
    have hc' : Inside g.row g.col (d.step c) := (h.sound.le hd).2.1.1
    obtain ⟨maze, hclose, hmaze⟩ := h.tracks.close h.sound.le hd
    rw [hclose, Option.bind_eq_bind, Option.bind_some,
      Maze.node_of_inside (by rwa [hmaze.row, hmaze.col])]
    refine ⟨_, Move.push hcells hexit hd hmaze ?_⟩
    exact congrArg (· :: m.cells) (hmaze.cell _ hc')
  · next hno => exact hother fun hd => hno ((h.tracks.state c hc d).mpr hd)

/-- A round makes a move, or the search stops. -/
theorem body_moves (h : Inv g unused m) (hopen : g.Open entrance) :
    (body m).Holds (fun m' => ∃ unused', Move g unused m unused' m')
      fun m' => m' = m ∧ (m.stack = [] ∨ ∃ cs, m.cells = g.exit :: cs) := by
  unfold body
  split
  · next hstack => exact ⟨rfl, Or.inl hstack⟩
  · next top rest hstack =>
    have hcells : m.cells = top.cell :: rest.map Node.cell := by
      rw [cells, hstack, List.map_cons]
    dsimp only
    rw [h.tracks.row, h.tracks.col]
    split
    · next hexit =>
      have hexit : top.cell = g.exit := Prod.ext hexit.1 hexit.2
      exact ⟨rfl, Or.inr ⟨_, hexit ▸ hcells⟩⟩
    · next hexit =>
      have hexit : top.cell ≠ g.exit := fun heq =>
        hexit ⟨congrArg Prod.fst heq, congrArg Prod.snd heq⟩
      apply branch_holds h hopen hcells hexit .RIGHT
      intro hright
      apply branch_holds h hopen hcells hexit .LEFT
      intro hleft
      apply branch_holds h hopen hcells hexit .UP
      intro hup
      apply branch_holds h hopen hcells hexit .DOWN
      intro hdown
      refine ⟨unused, Move.pop hcells hexit fun d => ?_⟩
      cases d with
      | RIGHT => exact hright
      | DOWN => exact hdown
      | LEFT => exact hleft
      | UP => exact hup

/-! ## The end of the search -/

/-- With an empty stack there is no way to the exit. -/
theorem Inv.result_nil (h : Inv g unused m) (hopen : g.Open entrance) (hnil : m.stack = []) :
    Result g m := by
  refine ⟨fun _ => h.opened hopen, iff_of_false (fun hne => hne hnil) ?_,
    fun hne => absurd hnil hne⟩
  rintro ⟨-, hreach⟩
  have hcells : m.cells = [] := by rw [cells, hnil, List.map_nil]
  have hhead := h.exit ((hcells ▸ h.sound).complete hreach)
  rw [hcells] at hhead
  cases hhead

theorem Inv.result_exit (h : Inv g unused m) (hopen : g.Open entrance) {cs : List Cell}
    (hcells : m.cells = g.exit :: cs) : Result g m := by
  have hne : m.stack ≠ [] := by
    rintro hnil
    rw [cells, hnil] at hcells
    cases hcells
  have hexit : g.exit ∈ m.cells := hcells ▸ List.mem_cons_self
  refine ⟨fun _ => h.opened hopen,
    iff_of_true hne ⟨hopen, h.sound.reachable _ (h.sound.waits _ hexit)⟩, fun _ => ⟨?_, ?_, ?_⟩⟩
  · rw [List.head?_reverse]
    have hsome : m.cells.getLast?.isSome := by simp [hcells]
    obtain ⟨c, hc⟩ := Option.isSome_iff_exists.mp hsome
    rw [hc, h.bottom c hc]
  · rw [List.getLast?_reverse, hcells]
    rfl
  · apply List.isChain_reverse.mpr
    exact h.chain.imp fun _ _ hadj => hadj.symm

/-- Where the search stops, it knows whether there is a way. -/
theorem Inv.result (h : Inv g unused m) (hopen : g.Open entrance)
    (hstop : m.stack = [] ∨ ∃ cs, m.cells = g.exit :: cs) : Result g m := by
  obtain hnil | ⟨cs, hcells⟩ := hstop
  · exact h.result_nil hopen hnil
  · exact h.result_exit hopen hcells

theorem body_holds (h : Inv g unused m) (hopen : g.Open entrance) :
    (body m).Holds (Less g unused m) (Result g) := by
  apply (body_moves h hopen).mono
  · rintro m' ⟨unused', hmove⟩
    exact ⟨unused', h.move hmove⟩
  · rintro _ ⟨rfl, hstop⟩
    exact h.result hopen hstop

/-! ## The search -/

theorem start_inv {first : Node} (h : Tracks g g.ways m.toMaze) (hnil : m.stack = [])
    (hfirst : first.cell = entrance) : Inv g g.ways { m with stack := first :: m.stack } := by
  have hcells : DfsMaze.cells { m with stack := first :: m.stack } = [entrance] := by
    rw [cells, List.map_cons, hfirst, hnil, List.map_nil]
  refine ⟨h, ?_, ?_, ?_, ?_⟩
  · rw [hcells]
    exact Sound.initial
  · rw [hcells]
    exact List.isChain_singleton entrance
  · intro c hc
    rw [hcells] at hc
    exact (Option.mem_some_iff.mp hc).symm
  · intro hreached
    rw [hcells, reached_self.mp hreached]
    rfl

/-- The search of a maze that has just been read. -/
theorem searchMazePath_cases {maze : Maze} (h : Tracks g g.ways maze) :
    (¬ g.Open entrance ∧ ∀ n, (start maze).searchMazePath n = .done (start maze)) ∨
      g.Open entrance ∧ ∃ m, Inv g g.ways m ∧ m.cells = [entrance] ∧
        (start maze).searchMazePath = fun n => loop body n m := by
  obtain ⟨first, hnode, hfirst, hval⟩ := h.first
  have hnode : (start maze).node (0, 0) = some first := hnode
  by_cases hopen : g.Open entrance
  · refine Or.inr ⟨hopen, _, start_inv (m := start maze) h rfl hfirst,
      congrArg (fun c => [c]) hfirst, ?_⟩
    funext n
    rw [searchMazePath, hnode]
    exact if_neg fun hone => hval.mp hone hopen
  · refine Or.inl ⟨hopen, fun n => ?_⟩
    rw [searchMazePath, hnode]
    exact if_pos (hval.mpr hopen)

/-- No wall and no place outside of the maze comes onto the stack. -/
theorem searchMazePath_holds {maze : Maze} (h : Tracks g g.ways maze) (n : ℕ) :
    ((start maze).searchMazePath n).Holds (fun m => ∀ c ∈ m.cells, g.Open c)
      fun m => ∀ c ∈ m.cells, g.Open c := by
  obtain ⟨-, hdone⟩ | ⟨hopen, m, hinv, -, hloop⟩ := searchMazePath_cases h
  · rw [hdone n]
    exact fun c hc => absurd hc List.not_mem_nil
  · rw [hloop]
    have hround : ∀ m, (∃ unused, Inv g unused m) →
        (body m).Holds (fun m' => ∃ unused', Inv g unused' m') (Result g) := by
      rintro m ⟨unused, hm⟩
      exact (body_holds hm hopen).mono (fun _ hless => ⟨_, hless.choose_spec.1⟩) fun _ => id
    refine (Round.Holds.loop hround n ⟨g.ways, hinv⟩).mono ?_ fun m' hm' => hm'.opened
    rintro m' ⟨unused', hm'⟩ c
    exact hm'.opened hopen

/-- The search returns, and keeps whatever its moves keep. -/
theorem searchMazePath_returns_with {J : SimpleGraph Cell → DfsMaze → Prop}
    (hnil : ∀ m, Tracks g g.ways m.toMaze → m.cells = [] → J g.ways m)
    (hfirst : ∀ m, Tracks g g.ways m.toMaze → m.cells = [entrance] → J g.ways m)
    (hmove : ∀ {unused m unused' m'}, Inv g unused m → J unused m → Move g unused m unused' m' →
      J unused' m')
    {maze : Maze} (h : Tracks g g.ways maze) :
    ∃ m, Returns (start maze).searchMazePath m ∧ Result g m ∧ ∃ unused, J unused m := by
  obtain ⟨hwall, hdone⟩ | ⟨hopen, m, hinv, hcells, hloop⟩ := searchMazePath_cases h
  · refine ⟨start maze, ⟨0, fun n _ => hdone n⟩, ⟨?_, ?_, fun hne => absurd rfl hne⟩,
      g.ways, hnil (start maze) h rfl⟩
    · exact fun c hc => absurd hc List.not_mem_nil
    · exact iff_of_false (fun hne => hne rfl) fun hsolvable => hwall hsolvable.1
  · rw [hloop]
    have hround : ∀ unused m, Inv g unused m ∧ J unused m →
        (body m).Holds (fun m' => ∃ unused', (Inv g unused' m' ∧ J unused' m') ∧
            cost unused' m'.cells < cost unused m.cells)
          fun m' => Result g m' ∧ ∃ unused, J unused m' := by
      rintro unused m ⟨hm, hJ⟩
      apply (body_moves hm hopen).mono
      · rintro m' ⟨unused', hstep⟩
        obtain ⟨hm', hless⟩ := hm.move hstep
        exact ⟨unused', ⟨hm', hmove hm hJ hstep⟩, hless⟩
      · rintro _ ⟨rfl, hstop⟩
        exact ⟨hm.result hopen hstop, unused, hJ⟩
    exact loop_returns (fun unused (m : DfsMaze) => cost unused m.cells) hround
      ⟨hinv, hfirst m hinv.tracks hcells⟩

theorem searchMazePath_returns {maze : Maze} (h : Tracks g g.ways maze) :
    ∃ m, Returns (start maze).searchMazePath m ∧ Result g m := by
  obtain ⟨m, hreturns, hresult, -⟩ := searchMazePath_returns_with (J := fun _ _ => True)
    (fun _ _ _ => trivial) (fun _ _ _ => trivial) (fun _ _ _ => trivial) h
  exact ⟨m, hreturns, hresult⟩

/-- The search decides whether there is a way, without leaving the open cells. -/
theorem searchMazePath_decides (g : Grid) (fresh : Cell → Node) :
    ∃ maze m, Maze.read fresh g.row g.col g.data = some maze ∧
      Returns (start maze).searchMazePath m ∧
      (∀ n, ((start maze).searchMazePath n).Holds (fun m' => ∀ c ∈ m'.cells, g.Open c)
        fun m' => ∀ c ∈ m'.cells, g.Open c) ∧
      (m.stack ≠ [] ↔ g.Solvable) ∧ (m.stack ≠ [] → Leads g m.cells.reverse) := by
  obtain ⟨maze, hread, htracks⟩ := read_tracks g fresh
  obtain ⟨m, hreturns, hresult⟩ := searchMazePath_returns htracks
  exact ⟨maze, m, hread, hreturns, searchMazePath_holds htracks, hresult.solved, hresult.leads⟩

/-- The maze in the comment of `dfs.cpp`. -/
example :
    (match Maze.read (fun _ => ⟨0, 0, 0, fun _ => 0⟩) 5 5 fun c =>
        ([[0, 0, 0, 1, 1],
          [1, 0, 0, 0, 1],
          [1, 1, 0, 1, 1],
          [1, 1, 0, 0, 1],
          [1, 1, 1, 0, 0]].getD c.1.toNat []).getD c.2.toNat 1 with
      | none => []
      | some maze =>
        match (start maze).searchMazePath 20 with
        | .done m => m.cells.reverse
        | _ => []) =
      [(0, 0), (0, 1), (0, 2), (1, 2), (2, 2), (3, 2), (3, 3), (4, 3), (4, 4)] := by
  decide +kernel

/-- The error message is for an empty stack. -/
theorem showMazePath_fails_iff :
    m.showMazePath = some (m, "Path is Error!\n") ↔ m.stack = [] := by
  constructor
  · intro hshow
    by_contra hne
    unfold showMazePath at hshow
    split at hshow
    · next hnil => exact hne hnil
    · obtain ⟨maze, -, heq⟩ := Option.bind_eq_some_iff.mp hshow
      have hmaze := congrArg Prod.fst (Option.some.inj heq)
      exact hne (congrArg DfsMaze.stack hmaze).symm
  · intro hnil
    unfold showMazePath
    rw [hnil]

end DfsMaze

end CppInOne.Algorithm
