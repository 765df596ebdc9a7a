import Mathlib.Data.List.Basic
import Mathlib.Data.List.Nodup

/-!
# Null-terminated chains

Nodes that are linked by pointers: `next p` is the pointer that the node at `p` holds, and
`none` if there is no node at `p`.

## Main definitions

- `Chain` — a pointer, and the nodes from it on up to the null pointer
-/

variable {α : Type*}

/-- The chain from `p` on consists of these nodes. -/
inductive Chain (next : α → Option α) (null : α) : α → List α → Prop where
  | nil : Chain next null null []
  | cons {p q : α} {l : List α} (hp : p ≠ null) (hq : next p = some q)
    (h : Chain next null q l) : Chain next null p (p :: l)

namespace Chain

variable {next next' : α → Option α} {null p q : α} {l l' : List α}

/-- A pointer has one chain at most. -/
theorem unique (h : Chain next null p l) (h' : Chain next null p l') : l = l' := by
  induction h generalizing l' with
  | nil =>
    cases h' with
    | nil => rfl
    | cons hp _ _ => exact absurd rfl hp
  | cons hp hq _ ih =>
    cases h' with
    | nil => exact absurd rfl hp
    | cons _ hq' htail =>
      rw [hq] at hq'
      cases hq'
      rw [ih htail]

/-- The chain from a node of a chain on. -/
theorem drop (h : Chain next null p (l ++ l')) : ∃ q, Chain next null q l' := by
  induction l generalizing p with
  | nil => exact ⟨p, h⟩
  | cons a l ih =>
    cases h with
    | cons _ _ htail => exact ih htail

theorem cons_iff {a : α} :
    Chain next null p (a :: l) ↔ p = a ∧ a ≠ null ∧ ∃ q, next a = some q ∧ Chain next null q l := by
  constructor
  · intro h
    cases h with
    | cons hp hq htail => exact ⟨rfl, hp, _, hq, htail⟩
  · rintro ⟨rfl, hp, q, hq, htail⟩
    exact .cons hp hq htail

theorem ne_null (h : Chain next null p l) (hl : l ≠ []) : p ≠ null := by
  cases h with
  | nil => exact absurd rfl hl
  | cons hp _ _ => exact hp

theorem nil_iff : Chain next null p [] ↔ p = null := by
  constructor
  · intro h
    cases h
    rfl
  · rintro rfl
    exact .nil

theorem head_eq (h : Chain next null p (q :: l)) : p = q := by
  cases h
  rfl

theorem head?_eq (h : Chain next null p l) (hl : l.head? = some q) : p = q := by
  cases h with
  | nil => cases hl
  | cons _ _ _ =>
    cases hl
    rfl

/-- A chain that ends does not come back to a node. -/
theorem nodup (h : Chain next null p l) : l.Nodup := by
  induction h with
  | nil => exact List.nodup_nil
  | @cons p q l hp hq htail ih =>
    refine List.nodup_cons.mpr ⟨fun hmem => ?_, ih⟩
    obtain ⟨before, after, rfl⟩ := List.append_of_mem hmem
    obtain ⟨r, hr⟩ := htail.drop
    obtain rfl := hr.head_eq
    have hlen := congrArg List.length (hr.unique (.cons hp hq htail))
    simp only [List.length_cons, List.length_append] at hlen
    omega

/-- The last node does not come earlier. -/
theorem last_notMem (h : Chain next null p (l ++ [q])) : q ∉ l := by
  intro hmem
  exact (List.nodup_append.mp h.nodup).2.2 q hmem q (List.mem_singleton_self q) rfl

/-- Only the pointers of its nodes count. -/
theorem congr (h : Chain next null p l) (hnext : ∀ a ∈ l, next' a = next a) :
    Chain next' null p l := by
  induction h with
  | nil => exact .nil
  | cons hp hq _ ih =>
    refine .cons hp ((hnext _ List.mem_cons_self).trans hq) (ih fun a ha => ?_)
    exact hnext a (List.mem_cons_of_mem _ ha)

/-- A node is linked behind the last one. -/
theorem append (h : Chain next null p (l ++ [q])) {r : α} (hr : r ≠ null)
    (hnext : ∀ a ∈ l, next' a = next a) (hq : next' q = some r) (hlast : next' r = some null) :
    Chain next' null p (l ++ [q, r]) := by
  induction l generalizing p with
  | nil =>
    obtain rfl := h.head_eq
    cases h with
    | cons hp _ _ => exact .cons hp hq (.cons hr hlast .nil)
  | cons a l ih =>
    cases h with
    | cons hp hpq htail =>
      refine .cons hp ((hnext _ List.mem_cons_self).trans hpq) (ih htail fun b hb => ?_)
      exact hnext b (List.mem_cons_of_mem _ hb)

end Chain
