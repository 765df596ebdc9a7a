import Mathlib.Data.Nat.Basic
import Mathlib.Order.Basic

/-!
# Loops that a return statement may leave

A piece of code in the body of a loop goes on, leaves the function, or goes out of the bounds of
an array. The loop repeats its body for a given number of rounds.

## Main results

- `Round.Holds.loop` — what one round keeps, the loop keeps
- `loop_returns` — a loop whose rounds use something up returns
- `Returns.unique` — there is one result
-/

namespace Loop

variable {σ : Type*}

/-- How a piece of code ends. -/
inductive Round (σ : Type*) where
  /-- an access was out of bounds -/
  | fault
  /-- the code after it runs next -/
  | next (s : σ)
  /-- the function has returned -/
  | done (s : σ)
  deriving DecidableEq, Repr

namespace Round

/-- One piece of code after another. -/
def bind : Round σ → (σ → Round σ) → Round σ
  | fault, _ => fault
  | next s, f => f s
  | done s, _ => done s

/-- Code that stands behind a loop, after a `break`. -/
def finish (f : σ → σ) : Round σ → Round σ
  | fault => fault
  | next s => next s
  | done s => done (f s)

/-- The result of code that does not return, if its accesses were in bounds. -/
def ofOption : Option σ → Round σ
  | none => fault
  | some s => next s

/-- Nothing is out of bounds, `I` holds where the code goes on and `Q` where it has returned. -/
def Holds (I Q : σ → Prop) : Round σ → Prop
  | fault => False
  | next s => I s
  | done s => Q s

variable {I J Q R : σ → Prop} {r : Round σ}

@[simp] theorem next_bind (s : σ) (f : σ → Round σ) : (next s).bind f = f s := rfl

@[simp] theorem ofOption_some (s : σ) : ofOption (some s) = next s := rfl

theorem Holds.mono (h : r.Holds I Q) (hI : ∀ s, I s → J s) (hQ : ∀ s, Q s → R s) :
    r.Holds J R := by
  cases r with
  | fault => exact h
  | next s => exact hI s h
  | done s => exact hQ s h

theorem Holds.bind {f : σ → Round σ} (h : r.Holds I Q) (hf : ∀ s, I s → (f s).Holds J Q) :
    (r.bind f).Holds J Q := by
  cases r with
  | fault => exact h
  | next s => exact hf s h
  | done s => exact h

end Round

/-- So many rounds of a loop, or fewer when its body returns. -/
def loop (body : σ → Round σ) : ℕ → σ → Round σ
  | 0, s => .next s
  | n + 1, s => (body s).bind (loop body n)

/-- The function returns `r`: it has done so after some number of rounds, and more rounds would not
change it. -/
def Returns (run : ℕ → Round σ) (r : σ) : Prop := ∃ n, ∀ m, n ≤ m → run m = .done r

theorem Returns.unique {run : ℕ → Round σ} {r r' : σ} (h : Returns run r) (h' : Returns run r') :
    r = r' := by
  obtain ⟨n, hn⟩ := h
  obtain ⟨n', hn'⟩ := h'
  have heq := (hn (max n n') (le_max_left n n')).symm.trans (hn' _ (le_max_right n n'))
  exact Round.done.inj heq

theorem Returns.finish {run : ℕ → Round σ} {r : σ} (h : Returns run r) (f : σ → σ) :
    Returns (fun n => (run n).finish f) (f r) := by
  obtain ⟨n, hn⟩ := h
  refine ⟨n, fun m hm => ?_⟩
  simp only [hn m hm, Round.finish]

section Rules

variable {body : σ → Round σ}

theorem loop_done {n m : ℕ} {s r : σ} (h : loop body n s = .done r) (hle : n ≤ m) :
    loop body m s = .done r := by
  induction n generalizing m s with
  | zero => cases h
  | succ n ih =>
    obtain ⟨m, rfl⟩ := Nat.exists_eq_add_of_le' (Nat.le_trans (Nat.succ_pos n) hle)
    rw [loop] at h ⊢
    cases hs : body s with
    | fault => rw [hs] at h; cases h
    | next s' =>
      rw [hs, Round.next_bind] at h
      exact ih h (Nat.le_of_succ_le_succ hle)
    | done s' => rwa [hs] at h

theorem returns_of_loop {n : ℕ} {s r : σ} (h : loop body n s = .done r) :
    Returns (fun m => loop body m s) r :=
  ⟨n, fun _ hm => loop_done h hm⟩

/-- The invariant rule. -/
theorem Round.Holds.loop {I Q : σ → Prop} (hbody : ∀ s, I s → (body s).Holds I Q) (n : ℕ) {s : σ}
    (hs : I s) : (loop body n s).Holds I Q := by
  induction n generalizing s with
  | zero => exact hs
  | succ n ih => exact (hbody s hs).bind fun s' hs' => ih hs'

/-- The rule for termination: each round makes a number smaller. It may also depend on a value `t`
that only the proof knows. -/
theorem loop_returns {τ : Type*} {I : τ → σ → Prop} {Q : σ → Prop} (cost : τ → σ → ℕ)
    (hbody : ∀ t s, I t s →
      (body s).Holds (fun s' => ∃ t', I t' s' ∧ cost t' s' < cost t s) Q)
    {t : τ} {s : σ} (hs : I t s) : ∃ r, Returns (fun m => loop body m s) r ∧ Q r := by
  suffices ∃ r, loop body (cost t s + 1) s = .done r ∧ Q r by
    obtain ⟨r, hr, hQ⟩ := this
    exact ⟨r, returns_of_loop hr, hQ⟩
  induction hn : cost t s using Nat.strong_induction_on generalizing t s with
  | _ n ih =>
    have hround := hbody t s hs
    rw [loop]
    cases hs' : body s with
    | fault =>
      rw [hs'] at hround
      exact hround.elim
    | next s' =>
      rw [hs'] at hround
      obtain ⟨t', hI, hlt⟩ := hround
      obtain ⟨r, hr, hQ⟩ := ih (cost t' s') (hn ▸ hlt) hI rfl
      exact ⟨r, loop_done hr (hn ▸ hlt), hQ⟩
    | done r =>
      rw [hs'] at hround
      exact ⟨r, rfl, hround⟩

end Rules

end Loop
