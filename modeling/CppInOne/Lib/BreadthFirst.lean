import CppInOne.Lib.EdgeSearch
import Mathlib.Combinatorics.SimpleGraph.Coloring.Constructions
import Mathlib.Combinatorics.SimpleGraph.Metric

/-!
# The layers of a breadth-first search that uses up edges

When the waiting vertices stand in a queue, they are ordered by their distance from the start. In
a bipartite graph an edge that is used at the front of the queue always leads one layer away from
the start, even to a vertex that has been reached before: every edge back to the layer before has
been used there. A table of predecessors may therefore be overwritten without harm.

## Main results

- `Layered.take`, `Layered.drop` — the steps keep the queue in order
- `Layered.dist_of_unused` — an unused edge leads to the next layer
- `Traced.take` — the predecessors stay one layer back
-/

namespace EdgeSearch

variable {V : Type*} {G unused : SimpleGraph V} {start u v w : V} {queue : List V}

/-- The vertices of a queue are ordered by distance and of at most two layers, and nothing is left
to use in the layers before the first of them. -/
structure Layered (G unused : SimpleGraph V) (start : V) (queue : List V) : Prop where
  sorted : queue.Pairwise fun a b => G.dist start a ≤ G.dist start b
  span : ∀ u ∈ queue.head?, ∀ v ∈ queue, G.dist start v ≤ G.dist start u + 1
  used : ∀ u ∈ queue.head?, ∀ v, G.Reachable start v → G.dist start v < G.dist start u →
    ∀ w, ¬ unused.Adj v w

/-- From every reached vertex `pred` goes one layer back. -/
def Traced (G unused : SimpleGraph V) (start : V) (pred : V → Option V) : Prop :=
  ∀ v, Reached G unused start v → v ≠ start → ∃ u, pred v = some u ∧ Reached G unused start u ∧
    G.Adj u v ∧ G.dist start v = G.dist start u + 1

/-! ## Distances -/

/-- The two ends of an edge lie in different layers. -/
theorem dist_ne_of_adj (c : G.Coloring Bool) (hu : G.Reachable start u) (huv : G.Adj u v) :
    G.dist start u ≠ G.dist start v := by
  obtain ⟨p, hp⟩ := hu.exists_walk_length_eq_dist
  obtain ⟨q, hq⟩ := (hu.trans huv.reachable).exists_walk_length_eq_dist
  intro heq
  have hparity : (c start ↔ c u) ↔ (c start ↔ c v) := by
    rw [← c.even_length_iff_congr p, ← c.even_length_iff_congr q, hp, hq, heq]
  have hcolor : c u ≠ c v := c.valid huv
  apply hcolor
  rw [Bool.eq_iff_iff]
  tauto

theorem dist_of_adj (c : G.Coloring Bool) (hu : G.Reachable start u) (huv : G.Adj u v) :
    G.dist start v = G.dist start u + 1 ∨ G.dist start v < G.dist start u := by
  have hne := dist_ne_of_adj c hu huv
  have hdiff := huv.diff_dist_adj (u := start)
  omega

/-- A shortest way to a vertex comes from the layer before. -/
theorem exists_previous (hv : G.Reachable start v) (hne : v ≠ start) :
    ∃ u, G.Reachable start u ∧ G.Adj u v ∧ G.dist start v = G.dist start u + 1 := by
  obtain ⟨p, hp⟩ := hv.symm.exists_walk_length_eq_dist
  cases p with
  | nil => exact absurd rfl hne
  | @cons _ u _ hvu p =>
    have hu : G.Reachable start u := p.reachable.symm
    have hback : G.dist u start ≤ p.length := G.dist_le p
    have hforth : G.dist start v ≤ G.dist start u + G.dist u v := hu.dist_triangle_left v
    rw [SimpleGraph.dist_eq_one_iff_adj.mpr hvu.symm] at hforth
    rw [SimpleGraph.Walk.length_cons, SimpleGraph.dist_comm] at hp
    rw [SimpleGraph.dist_comm] at hback
    exact ⟨u, hu, hvu.symm, by omega⟩

/-! ## The queue -/

theorem Layered.initial : Layered G G start [start] where
  sorted := List.pairwise_singleton ..
  span u hu v hv := by
    obtain rfl := Option.mem_some_iff.mp hu
    obtain rfl := List.mem_singleton.mp hv
    exact Nat.le_succ _
  used u hu v hv hlt := by
    obtain rfl := Option.mem_some_iff.mp hu
    rw [SimpleGraph.dist_self] at hlt
    exact absurd hlt (Nat.not_lt_zero _)

theorem layered_nil : Layered G unused start [] where
  sorted := List.Pairwise.nil
  span u hu := by cases hu
  used u hu := by cases hu

/-- Every vertex up to the layer of the first in the queue has been reached. -/
theorem Layered.reached (h : Layered G unused start (u :: queue)) (hv : G.Reachable start v)
    (hle : G.dist start v ≤ G.dist start u) : Reached G unused start v := by
  by_cases hne : v = start
  · exact Or.inl hne
  · obtain ⟨w, hw, hwv, hdist⟩ := exists_previous hv hne
    exact reached_of_adj (h.used u rfl w hw (by omega)) hwv

theorem Layered.dist_of_unused (h : Layered G unused start (u :: queue)) (c : G.Coloring Bool)
    (hs : Sound G unused start (u :: queue)) (huv : unused.Adj u v) :
    G.dist start v = G.dist start u + 1 := by
  have hu := hs.reachable u (hs.waits u List.mem_cons_self)
  obtain hnext | hlt := dist_of_adj c hu (hs.le huv)
  · exact hnext
  · have hv := hu.trans (hs.le huv).reachable
    exact absurd huv.symm (h.used u rfl v hv hlt u)

theorem Layered.take (h : Layered G unused start (u :: queue)) (c : G.Coloring Bool)
    (hs : Sound G unused start (u :: queue)) (huv : unused.Adj u v) :
    Layered G (use unused u v) start (u :: queue ++ [v]) where
  sorted := by
    refine List.pairwise_append.mpr ⟨h.sorted, List.pairwise_singleton .., ?_⟩
    intro a ha b hb
    rw [List.mem_singleton.mp hb, h.dist_of_unused c hs huv]
    exact h.span u rfl a ha
  span a ha b hb := by
    obtain rfl := Option.mem_some_iff.mp ha
    obtain hb | hb := List.mem_append.mp hb
    · exact h.span u rfl b hb
    · rw [List.mem_singleton.mp hb, h.dist_of_unused c hs huv]
  used a ha b hb hlt w hw := by
    obtain rfl := Option.mem_some_iff.mp ha
    exact h.used u rfl b hb hlt w (use_le hw)

/-- When the first vertex is dropped and the next one is of the next layer, the layer before it
has nothing left: all of it has been reached, and what still waits is further away. -/
theorem Layered.drop (h : Layered G unused start (u :: queue))
    (hs : Sound G unused start (u :: queue)) (hnone : ∀ w, ¬ unused.Adj u w) :
    Layered G unused start queue where
  sorted := h.sorted.of_cons
  span a ha b hb := by
    have hmem := List.mem_of_mem_head? ha
    have hfront := List.rel_of_pairwise_cons h.sorted hmem
    have hspan := h.span u rfl b (List.mem_cons_of_mem u hb)
    omega
  used a ha b hb hlt := by
    have hmem := List.mem_of_mem_head? ha
    have hspan := h.span u rfl a (List.mem_cons_of_mem u hmem)
    obtain hwaits | hb := hs.covered b (h.reached hb (by omega))
    · obtain rfl | hwaits := List.mem_cons.mp hwaits
      · exact hnone
      · obtain ⟨rest, rfl⟩ := List.head?_eq_some_iff.mp ha
        obtain rfl | hrest := List.mem_cons.mp hwaits
        · exact absurd hlt (Nat.lt_irrefl _)
        · have hle := List.rel_of_pairwise_cons h.sorted.of_cons hrest
          omega
    · exact hb

/-! ## The predecessors -/

theorem Traced.initial (pred : V → Option V) : Traced G G start pred := by
  intro v hv hne
  exact absurd (reached_self.mp hv) hne

/-- A later edge may overwrite the predecessor of a vertex. -/
theorem Traced.take {pred pred' : V → Option V} (h : Traced G unused start pred)
    (hl : Layered G unused start (u :: queue)) (c : G.Coloring Bool)
    (hs : Sound G unused start (u :: queue)) (huv : unused.Adj u v) (hnew : pred' v = some u)
    (hold : ∀ w, Reached G unused start w → w ≠ v → pred' w = pred w) :
    Traced G (use unused u v) start pred' := by
  intro w hw hne
  have hu := hs.waits u List.mem_cons_self
  by_cases hwv : w = v
  · subst hwv
    exact ⟨u, hnew, (reached_use hs.le huv).mpr (Or.inl hu), hs.le huv,
      hl.dist_of_unused c hs huv⟩
  · have hw : Reached G unused start w := by
      obtain hw | rfl | rfl := (reached_use hs.le huv).mp hw
      · exact hw
      · exact hu
      · exact absurd rfl hwv
    obtain ⟨x, hx, hreached, hadj, hdist⟩ := h w hw hne
    exact ⟨x, (hold w hw hwv).trans hx, (reached_use hs.le huv).mpr (Or.inl hreached), hadj, hdist⟩

end EdgeSearch
