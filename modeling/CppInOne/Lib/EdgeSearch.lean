import Mathlib.Combinatorics.SimpleGraph.Connectivity.Connected
import Mathlib.Combinatorics.SimpleGraph.DeleteEdges
import Mathlib.Data.Set.Card

/-!
# Searches that use up the edges of a graph

A search without a set of visited vertices. It keeps a list of waiting vertices and the edges that
it has not used yet. A step takes an unused edge at a waiting vertex and lets its other end wait
as well, or drops a waiting vertex that has no unused edge. A vertex can wait several times.

## Main results

- `Sound.take`, `Sound.drop` — the two steps
- `Sound.complete` — a search with nothing left to do has reached every reachable vertex
- `cost_use` — how far the search is from its end
-/

namespace EdgeSearch

variable {V : Type*} {G unused : SimpleGraph V} {start u v w : V} {waiting waiting' : List V}

/-- The start, and the ends of the edges that have been used. -/
def Reached (G unused : SimpleGraph V) (start v : V) : Prop :=
  v = start ∨ ∃ u, G.Adj u v ∧ ¬ unused.Adj u v

def use (unused : SimpleGraph V) (u v : V) : SimpleGraph V := unused.deleteEdges {s(u, v)}

/-- What holds between any two steps of a search. -/
structure Sound (G unused : SimpleGraph V) (start : V) (waiting : List V) : Prop where
  le : unused ≤ G
  waits : ∀ v ∈ waiting, Reached G unused start v
  reachable : ∀ v, Reached G unused start v → G.Reachable start v
  covered : ∀ v, Reached G unused start v → v ∈ waiting ∨ ∀ w, ¬ unused.Adj v w

/-! ## Using an edge -/

@[simp] theorem use_adj {a b : V} :
    (use unused u v).Adj a b ↔ unused.Adj a b ∧ s(a, b) ≠ s(u, v) := by
  simp [use]

theorem use_le : use unused u v ≤ unused := SimpleGraph.deleteEdges_le {s(u, v)}

theorem not_use_adj : ¬ (use unused u v).Adj u v := by simp

theorem reached_self : Reached G G start v ↔ v = start := by
  constructor
  · rintro (rfl | ⟨u, hu, hn⟩)
    · rfl
    · exact absurd hu hn
  · exact Or.inl

/-- An unused edge reaches its two ends. -/
theorem reached_use (hle : unused ≤ G) (huv : unused.Adj u v) :
    Reached G (use unused u v) start w ↔ Reached G unused start w ∨ w = u ∨ w = v := by
  constructor
  · rintro (rfl | ⟨x, hx, hn⟩)
    · exact Or.inl (Or.inl rfl)
    · by_cases hxw : unused.Adj x w
      · have heq : s(x, w) = s(u, v) := by
          by_contra hne
          exact hn (use_adj.mpr ⟨hxw, hne⟩)
        obtain ⟨-, rfl⟩ | ⟨-, rfl⟩ := Sym2.eq_iff.mp heq
        · exact Or.inr (Or.inr rfl)
        · exact Or.inr (Or.inl rfl)
      · exact Or.inl (Or.inr ⟨x, hx, hxw⟩)
  · rintro ((rfl | ⟨x, hx, hn⟩) | rfl | rfl)
    · exact Or.inl rfl
    · exact Or.inr ⟨x, hx, fun h => hn (use_le h)⟩
    · exact Or.inr ⟨v, hle huv.symm, fun h => not_use_adj h.symm⟩
    · exact Or.inr ⟨u, hle huv, not_use_adj⟩

/-! ## The steps -/

theorem Sound.initial : Sound G G start [start] where
  le := le_rfl
  waits v hv := Or.inl (List.mem_singleton.mp hv)
  reachable v hv := by
    obtain rfl := reached_self.mp hv
    exact SimpleGraph.Reachable.refl v
  covered v hv := Or.inl (List.mem_singleton.mpr (reached_self.mp hv))

/-- A search that does not begin, because no edge leaves the start. -/
theorem sound_of_isolated (hnone : ∀ w, ¬ G.Adj start w) : Sound G G start [] where
  le := le_rfl
  waits v hv := absurd hv List.not_mem_nil
  reachable v hv := by rw [reached_self.mp hv]
  covered v hv := by
    rw [reached_self.mp hv]
    exact Or.inr hnone

/-- Take an unused edge at a waiting vertex. -/
theorem Sound.take (h : Sound G unused start waiting) (hu : u ∈ waiting) (huv : unused.Adj u v)
    (hwait : ∀ w, w ∈ waiting' ↔ w ∈ waiting ∨ w = v) :
    Sound G (use unused u v) start waiting' where
  le := use_le.trans h.le
  waits w hw := by
    rw [reached_use h.le huv]
    obtain hw | rfl := (hwait w).mp hw
    · exact Or.inl (h.waits w hw)
    · exact Or.inr (Or.inr rfl)
  reachable w hw := by
    have hreach := h.reachable u (h.waits u hu)
    obtain hw | rfl | rfl := (reached_use h.le huv).mp hw
    · exact h.reachable w hw
    · exact hreach
    · exact hreach.trans (h.le huv).reachable
  covered w hw := by
    obtain hw | rfl | rfl := (reached_use h.le huv).mp hw
    · obtain hmem | hnone := h.covered w hw
      · exact Or.inl ((hwait w).mpr (Or.inl hmem))
      · exact Or.inr fun x hx => hnone x (use_le hx)
    · exact Or.inl ((hwait w).mpr (Or.inl hu))
    · exact Or.inl ((hwait w).mpr (Or.inr rfl))

/-- Drop a vertex that has no unused edge. -/
theorem Sound.drop (h : Sound G unused start (u :: waiting)) (hnone : ∀ w, ¬ unused.Adj u w) :
    Sound G unused start waiting where
  le := h.le
  waits v hv := h.waits v (List.mem_cons_of_mem u hv)
  reachable := h.reachable
  covered v hv := by
    obtain hmem | hv := h.covered v hv
    · obtain rfl | hmem := List.mem_cons.mp hmem
      · exact Or.inr hnone
      · exact Or.inl hmem
    · exact Or.inr hv

/-! ## The end of a search -/

/-- An edge at a vertex that has none left leads to a vertex that has been reached. -/
theorem reached_of_adj (hnone : ∀ w, ¬ unused.Adj u w) (huv : G.Adj u v) :
    Reached G unused start v :=
  Or.inr ⟨u, huv, hnone v⟩

theorem Sound.complete (h : Sound G unused start []) (hv : G.Reachable start v) :
    Reached G unused start v := by
  have hwalk : ∀ {a b : V}, G.Walk a b → Reached G unused start a → Reached G unused start b := by
    intro a b p
    induction p with
    | nil => exact id
    | cons hab p ih =>
      intro ha
      obtain hmem | hnone := h.covered _ ha
      · cases hmem
      · exact ih (reached_of_adj hnone hab)
  exact hv.elim fun p => hwalk p (Or.inl rfl)

/-! ## Termination -/

/-- An edge counts for the vertex that it will make wait as well. -/
noncomputable def cost (unused : SimpleGraph V) (waiting : List V) : ℕ :=
  2 * unused.edgeSet.ncard + waiting.length

theorem cost_use (hfin : G.edgeSet.Finite) (hle : unused ≤ G) (huv : unused.Adj u v)
    (hlen : waiting'.length = waiting.length + 1) :
    cost (use unused u v) waiting' < cost unused waiting := by
  have hedges : (use unused u v).edgeSet.ncard < unused.edgeSet.ncard := by
    rw [use, SimpleGraph.edgeSet_deleteEdges]
    exact Set.ncard_sdiff_singleton_lt_of_mem ((SimpleGraph.mem_edgeSet unused).mpr huv)
      (hfin.subset (SimpleGraph.edgeSet_mono hle))
  unfold cost
  omega

theorem cost_drop : cost unused waiting < cost unused (u :: waiting) := by
  unfold cost
  rw [List.length_cons]
  omega

end EdgeSearch
