import Mathlib.Data.List.Count
import Mathlib.Data.List.Nodup
import Mathlib.Data.Sym.Sym2

/-!
# Trails

A way through a graph, as the list of the vertices it comes to. A trail takes no edge twice, in
either direction. It can come to a vertex several times, but each time it comes and goes by edges
of their own.

## Main results

- `two_mul_count` — a vertex has two edges of the way for each time the way comes to it, one of
  them less where the way begins or ends there
- `IsTrail.two_mul_count_le` — so a trail comes to a vertex at most half as often as it has edges
-/

namespace Trail

variable {V : Type*} {u v w : V} {vs : List V}

/-- The edges between the vertices that follow one another. -/
def edges : List V → List (Sym2 V)
  | u :: v :: rest => s(u, v) :: edges (v :: rest)
  | _ => []

def IsTrail (vs : List V) : Prop := (edges vs).Nodup

@[simp] theorem edges_nil : edges ([] : List V) = [] := rfl

@[simp] theorem edges_singleton : edges [u] = [] := rfl

@[simp] theorem edges_cons_cons : edges (u :: v :: vs) = s(u, v) :: edges (v :: vs) := rfl

theorem edges_tail : edges vs.tail = (edges vs).tail := by
  match vs with
  | [] | [_] => rfl
  | _ :: _ :: _ => rfl

theorem exists_adj_of_mem_edges {r : V → V → Prop} (hvs : vs.IsChain r) {e : Sym2 V}
    (he : e ∈ edges vs) : ∃ u v, r u v ∧ e = s(u, v) := by
  induction vs with
  | nil => cases he
  | cons u vs ih =>
    cases vs with
    | nil => cases he
    | cons v vs =>
      obtain ⟨huv, hvs⟩ := List.isChain_cons_cons.mp hvs
      obtain rfl | he := List.mem_cons.mp he
      · exact ⟨u, v, huv, rfl⟩
      · exact ih hvs he

variable [DecidableEq V]

/-- The edges of a trail at one vertex lead to different neighbours. -/
theorem IsTrail.countP_le (hvs : IsTrail vs) {neighbours : List V}
    (hends : ∀ e ∈ edges vs, w ∈ e → ∃ v ∈ neighbours, e = s(w, v)) :
    (edges vs).countP (w ∈ ·) ≤ neighbours.length := by
  rw [List.countP_eq_length_filter, ← List.length_map (fun v => s(w, v))]
  apply List.Nodup.length_le_of_subset (hvs.filter _)
  intro e he
  obtain ⟨he, hw⟩ := List.mem_filter.mp he
  obtain ⟨v, hv, rfl⟩ := hends e he (of_decide_eq_true hw)
  exact List.mem_map_of_mem hv

variable [BEq V] [LawfulBEq V]

/-- The degree identity along a way that does not stand still. -/
theorem two_mul_count (hvs : vs.IsChain (· ≠ ·)) (w : V) :
    2 * vs.count w = (edges vs).countP (w ∈ ·) + (if vs.head? = some w then 1 else 0) +
      if vs.getLast? = some w then 1 else 0 := by
  induction vs with
  | nil => rfl
  | cons u vs ih =>
    cases vs with
    | nil => by_cases huw : u = w <;> simp [huw]
    | cons v vs =>
      obtain ⟨huv, hvs⟩ := List.isChain_cons_cons.mp hvs
      have hrest := ih hvs
      -- Of the two ends of the first edge at most one is `w`.
      have hends : (if w = u ∨ w = v then 1 else 0) =
          (if u = w then 1 else 0) + if v = w then 1 else 0 := by
        by_cases hu : u = w
        · simp [hu, Ne.symm (hu ▸ huv)]
        · by_cases hv : v = w
          · simp [hu, hv]
          · simp [hu, hv, Ne.symm hu, Ne.symm hv]
      simp only [List.head?_cons, Option.some.injEq] at hrest ⊢
      simp only [edges_cons_cons, List.count_cons, List.countP_cons, List.getLast?_cons_cons,
        Sym2.mem_iff, decide_eq_true_eq, beq_iff_eq] at hrest ⊢
      omega

/-- How often a trail comes to a vertex. -/
theorem IsTrail.two_mul_count_le (hvs : IsTrail vs) (hchain : vs.IsChain (· ≠ ·))
    {neighbours : List V} (hends : ∀ e ∈ edges vs, w ∈ e → ∃ v ∈ neighbours, e = s(w, v)) :
    2 * vs.count w ≤ neighbours.length + (if vs.head? = some w then 1 else 0) +
      if vs.getLast? = some w then 1 else 0 := by
  rw [two_mul_count hchain]
  have hle := hvs.countP_le hends
  omega

end Trail
