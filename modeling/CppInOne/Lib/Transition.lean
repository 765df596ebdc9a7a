import Mathlib.Data.List.Basic
import Mathlib.Logic.Basic

/-!
# Runs of partial step functions

A system is given by `step : σ → α → Option σ`: in state `s` the action `a` is
unavailable when `step s a = none`, and otherwise leads to exactly one next state.
All nondeterminism sits in the choice of the actions.

## Main definitions

- `run` — execute a list of actions
- `Guarded` — every action of a run is taken in a state that satisfies a guard
- `Reachable` — reached from a start state by some list of actions
-/

namespace Transition

variable {σ τ α : Type*}

/-- Execute a list of actions; `none` as soon as one is unavailable. -/
def run (step : σ → α → Option σ) : σ → List α → Option σ
  | s, [] => some s
  | s, a :: as => (step s a).bind fun s' => run step s' as

/-- Along the run from `s`, every action is taken in a state satisfying `G`. -/
def Guarded (step : σ → α → Option σ) (G : σ → α → Prop) : σ → List α → Prop
  | _, [] => True
  | s, a :: as => G s a ∧
    match step s a with
    | none => True
    | some s' => Guarded step G s' as

/-- States reached from `s₀` by some finite list of actions. -/
def Reachable (step : σ → α → Option σ) (s₀ s : σ) : Prop :=
  ∃ as, run step s₀ as = some s

instance Guarded.decidable (step : σ → α → Option σ) (G : σ → α → Prop)
    [∀ s a, Decidable (G s a)] : ∀ s as, Decidable (Guarded step G s as)
  | _, [] => .isTrue trivial
  | s, a :: as =>
    match h : step s a with
    | none => decidable_of_iff (G s a) (by simp [Guarded, h])
    | some s' =>
      have := Guarded.decidable step G s' as
      decidable_of_iff (G s a ∧ Guarded step G s' as) (by simp [Guarded, h])

@[simp] theorem run_nil (step : σ → α → Option σ) (s : σ) : run step s [] = some s := rfl

theorem run_cons (step : σ → α → Option σ) (s : σ) (a : α) (as : List α) :
    run step s (a :: as) = (step s a).bind fun s' => run step s' as := rfl

theorem run_cons_eq_some {step : σ → α → Option σ} {s t : σ} {a : α} {as : List α} :
    run step s (a :: as) = some t ↔ ∃ s', step s a = some s' ∧ run step s' as = some t := by
  rw [run_cons, Option.bind_eq_some_iff]

theorem guarded_cons {step : σ → α → Option σ} {G : σ → α → Prop} {s : σ} {a : α}
    {as : List α} : Guarded step G s (a :: as) ↔
      G s a ∧ ∀ s', step s a = some s' → Guarded step G s' as := by
  cases h : step s a with
  | none => simp [Guarded, h]
  | some s' => simp [Guarded, h]

/-- A guard that only looks at the action may be checked on the list of actions. -/
theorem guarded_of_forall_mem {step : σ → α → Option σ} {G : σ → α → Prop} {as : List α}
    (h : ∀ a ∈ as, ∀ s, G s a) (s : σ) : Guarded step G s as := by
  induction as generalizing s with
  | nil => trivial
  | cons a as ih =>
    refine guarded_cons.mpr ⟨h a List.mem_cons_self s, fun s' _ => ih ?_ s'⟩
    exact fun b hb => h b (List.mem_cons_of_mem a hb)

theorem guarded_append {step : σ → α → Option σ} {G : σ → α → Prop} {s : σ} {as bs : List α} :
    Guarded step G s (as ++ bs) ↔
      Guarded step G s as ∧ ∀ t, run step s as = some t → Guarded step G t bs := by
  induction as generalizing s with
  | nil => simp [Guarded]
  | cons a as ih =>
    rw [List.cons_append, guarded_cons, guarded_cons, and_assoc]
    refine and_congr_right fun _ => ⟨fun h => ⟨?_, ?_⟩, fun h s' hs' => ?_⟩
    · exact fun s' hs' => (ih.mp (h s' hs')).1
    · intro t hrun
      obtain ⟨s', hs', hrest⟩ := Option.bind_eq_some_iff.mp hrun
      exact (ih.mp (h s' hs')).2 t hrest
    · refine ih.mpr ⟨h.1 s' hs', fun t hrest => h.2 t ?_⟩
      exact Option.bind_eq_some_iff.mpr ⟨s', hs', hrest⟩

/-- A run that ends with an action against the guard. -/
theorem not_guarded_concat {step : σ → α → Option σ} {G : σ → α → Prop} {s t : σ} {as : List α}
    {a : α} (hrun : run step s as = some t) (ha : ¬ G t a) : ¬ Guarded step G s (as ++ [a]) :=
  fun h => ha ((guarded_append.mp h).2 t hrun).1

/-- Two guards that agree on what an invariant allows agree on a whole run. -/
theorem guarded_congr {step : σ → α → Option σ} {G H : σ → α → Prop} {I : σ → Prop}
    (hiff : ∀ s a s', I s → step s a = some s' → (G s a ↔ H s a))
    (hstep : ∀ s a s', I s → H s a → step s a = some s' → I s')
    {s t : σ} {as : List α} (hs : I s) (hrun : run step s as = some t) :
    Guarded step G s as ↔ Guarded step H s as := by
  induction as generalizing s with
  | nil => exact Iff.rfl
  | cons a as ih =>
    obtain ⟨s', hs', hrest⟩ := Option.bind_eq_some_iff.mp hrun
    rw [guarded_cons, guarded_cons, hiff s a s' hs hs']
    refine and_congr_right fun ha => ?_
    have htail := ih (hstep s a s' hs ha hs') hrest
    simp only [hs', Option.some.injEq, forall_eq']
    exact htail

/-- The same for runs of actions from `P`, when the guards also agree on unavailable actions. -/
theorem guarded_congr_of_forall_mem {step : σ → α → Option σ} {G H : σ → α → Prop}
    {I : σ → Prop} {P : α → Prop} (hiff : ∀ s a, I s → P a → (G s a ↔ H s a))
    (hstep : ∀ s a s', I s → P a → H s a → step s a = some s' → I s')
    {s : σ} {as : List α} (hs : I s) (has : ∀ a ∈ as, P a) :
    Guarded step G s as ↔ Guarded step H s as := by
  induction as generalizing s with
  | nil => exact Iff.rfl
  | cons a as ih =>
    have ha : P a := has a List.mem_cons_self
    rw [guarded_cons, guarded_cons, hiff s a hs ha]
    refine and_congr_right fun hH => forall₂_congr fun s' hs' => ?_
    exact ih (hstep s a s' hs ha hH hs') fun b hb => has b (List.mem_cons_of_mem a hb)

/-- A guard that another one implies, with the help of an invariant that the other one keeps. -/
theorem guarded_imp {step : σ → α → Option σ} {G H : σ → α → Prop} {I : σ → Prop}
    (hG : ∀ s a, I s → H s a → G s a)
    (hstep : ∀ s a s', I s → H s a → step s a = some s' → I s')
    {s : σ} {as : List α} (hs : I s) (h : Guarded step H s as) : Guarded step G s as := by
  induction as generalizing s with
  | nil => trivial
  | cons a as ih =>
    obtain ⟨ha, hrest⟩ := guarded_cons.mp h
    exact guarded_cons.mpr ⟨hG s a hs ha, fun s' hs' => ih (hstep s a s' hs ha hs') (hrest s' hs')⟩

/-- A guard that an invariant implies holds along every run. -/
theorem guarded_of_invariant {step : σ → α → Option σ} {G : σ → α → Prop} {I : σ → Prop}
    (hG : ∀ s a, I s → G s a) (hstep : ∀ s a s', I s → step s a = some s' → I s')
    {s : σ} (hs : I s) (as : List α) : Guarded step G s as :=
  guarded_imp (H := fun _ _ => True) (fun s a h _ => hG s a h) (fun s a s' h _ => hstep s a s' h)
    hs (guarded_of_forall_mem (fun _ _ _ => trivial) s)

theorem run_append (step : σ → α → Option σ) (s : σ) (as bs : List α) :
    run step s (as ++ bs) = (run step s as).bind fun t => run step t bs := by
  induction as generalizing s with
  | nil => rfl
  | cons a as ih =>
    rw [List.cons_append, run_cons, run_cons, Option.bind_assoc]
    simp only [ih]

theorem Reachable.refl (step : σ → α → Option σ) (s : σ) : Reachable step s s := ⟨[], rfl⟩

theorem Reachable.trans {step : σ → α → Option σ} {s t u : σ} (h : Reachable step s t)
    (h' : Reachable step t u) : Reachable step s u := by
  obtain ⟨as, has⟩ := h
  obtain ⟨bs, hbs⟩ := h'
  exact ⟨as ++ bs, by rw [run_append, has, Option.bind_some, hbs]⟩

theorem Reachable.of_step {step : σ → α → Option σ} {s t : σ} {a : α} (h : step s a = some t) :
    Reachable step s t :=
  ⟨[a], run_cons_eq_some.mpr ⟨t, h, rfl⟩⟩

/-- **Projection rule**: a system that `f` maps onto another one step by step runs as the
other one does. -/
theorem run_map {step : σ → α → Option σ} {step' : τ → α → Option τ} {f : σ → τ}
    (h : ∀ s a, (step s a).map f = step' (f s) a) (s : σ) (as : List α) :
    (run step s as).map f = run step' (f s) as := by
  induction as generalizing s with
  | nil => rfl
  | cons a as ih =>
    rw [run_cons, run_cons, ← h s a]
    cases step s a with
    | none => rfl
    | some s' => exact ih s'

/-- **Invariant rule** for guarded runs: an invariant kept by every guarded step
holds wherever a guarded run ends. -/
theorem run_invariant {step : σ → α → Option σ} {G : σ → α → Prop} {I : σ → Prop}
    (hstep : ∀ s a s', I s → G s a → step s a = some s' → I s')
    {s t : σ} {as : List α} (hs : I s) (hg : Guarded step G s as)
    (hr : run step s as = some t) : I t := by
  induction as generalizing s with
  | nil =>
    cases hr
    exact hs
  | cons a as ih =>
    obtain ⟨s', hs', hr'⟩ := run_cons_eq_some.mp hr
    obtain ⟨ha, hrest⟩ := guarded_cons.mp hg
    exact ih (hstep s a s' hs ha hs') (hrest s' hs') hr'

/-- The invariant rule without a guard, for reachable states. -/
theorem reachable_invariant {step : σ → α → Option σ} {I : σ → Prop}
    (hstep : ∀ s a s', I s → step s a = some s' → I s') {s₀ s : σ} (h₀ : I s₀)
    (hr : Reachable step s₀ s) : I s := by
  obtain ⟨as, hr⟩ := hr
  induction as generalizing s₀ with
  | nil =>
    cases hr
    exact h₀
  | cons a as ih =>
    obtain ⟨s', hs', hr'⟩ := run_cons_eq_some.mp hr
    exact ih (hstep s₀ a s' h₀ hs') hr'

/-- **Progress rule**: when every guarded step from an invariant state is available
and keeps the invariant, a guarded run never gets stuck. -/
theorem run_total {step : σ → α → Option σ} {G : σ → α → Prop} {I : σ → Prop}
    (hstep : ∀ s a, I s → G s a → ∃ s', step s a = some s' ∧ I s')
    {s : σ} {as : List α} (hs : I s) (hg : Guarded step G s as) :
    ∃ t, run step s as = some t ∧ I t := by
  induction as generalizing s with
  | nil => exact ⟨s, rfl, hs⟩
  | cons a as ih =>
    obtain ⟨ha, hrest⟩ := guarded_cons.mp hg
    obtain ⟨s', hs', hI⟩ := hstep s a hs ha
    obtain ⟨t, ht, hIt⟩ := ih hI (hrest s' hs')
    exact ⟨t, run_cons_eq_some.mpr ⟨s', hs', ht⟩, hIt⟩

/-- **Amortised measure rule**: when every step lowers `μ`, up to a credit `k` for the actions
in `p`, a run has at most `μ` steps and `k` more for each of these actions. -/
theorem run_length_le_add {step : σ → α → Option σ} {I : σ → Prop} {μ : σ → Nat} {p : α → Bool}
    {k : Nat} (hstep : ∀ s a s', I s → step s a = some s' →
      I s' ∧ μ s' < μ s + if p a then k else 0)
    {s t : σ} {as : List α} (hs : I s) (hr : run step s as = some t) :
    as.length + μ t ≤ μ s + as.countP p * k := by
  induction as generalizing s with
  | nil =>
    cases hr
    simp
  | cons a as ih =>
    obtain ⟨s', hs', hr'⟩ := run_cons_eq_some.mp hr
    obtain ⟨hI, hlt⟩ := hstep s a s' hs hs'
    have hrest := ih hI hr'
    rw [List.length_cons, List.countP_cons, Nat.add_mul]
    cases hp : p a with
    | true =>
      rw [hp, if_pos rfl] at hlt
      rw [if_pos rfl, Nat.one_mul]
      omega
    | false =>
      rw [hp, if_neg Bool.false_ne_true] at hlt
      rw [if_neg Bool.false_ne_true, Nat.zero_mul]
      omega

/-- **Measure rule**: when every step lowers `μ`, a run has at most `μ` steps. -/
theorem run_length_le {step : σ → α → Option σ} {I : σ → Prop} {μ : σ → Nat}
    (hstep : ∀ s a s', I s → step s a = some s' → I s' ∧ μ s' < μ s)
    {s t : σ} {as : List α} (hs : I s) (hr : run step s as = some t) :
    as.length + μ t ≤ μ s := by
  have h := run_length_le_add (p := fun _ => false) (k := 0) hstep hs hr
  simpa using h

/-- **Refinement rule**: a forward simulation of `step` by the total abstract
operation `spec` extends to guarded runs of any length. -/
theorem run_refines {step : σ → α → Option σ} {spec : τ → α → τ} {G : σ → α → Prop}
    {R : σ → τ → Prop}
    (hstep : ∀ s t a, R s t → G s a → ∃ s', step s a = some s' ∧ R s' (spec t a))
    {s : σ} {t : τ} {as : List α} (hs : R s t) (hg : Guarded step G s as) :
    ∃ s', run step s as = some s' ∧ R s' (as.foldl spec t) := by
  induction as generalizing s t with
  | nil => exact ⟨s, rfl, hs⟩
  | cons a as ih =>
    obtain ⟨ha, hrest⟩ := guarded_cons.mp hg
    obtain ⟨s', hs', hR⟩ := hstep s t a hs ha
    obtain ⟨s'', hs'', hR''⟩ := ih hR (hrest s' hs')
    exact ⟨s'', run_cons_eq_some.mpr ⟨s', hs', hs''⟩, hR''⟩

end Transition
