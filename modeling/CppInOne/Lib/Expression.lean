import Mathlib.Data.Nat.Notation

/-!
# Expressions with sums and differences

One expression can be evaluated over different types, for instance over numbers and over a
representation of numbers.

## Main results

- `eval_related` — if the operators keep a relation, evaluation does
-/

variable {α β γ : Type*}

inductive Expression (α : Type*) where
  | literal (a : α)
  | add (lhs rhs : Expression α)
  | sub (lhs rhs : Expression α)
  deriving DecidableEq, Repr

namespace Expression

def map (f : α → β) : Expression α → Expression β
  | literal a => literal (f a)
  | add lhs rhs => add (lhs.map f) (rhs.map f)
  | sub lhs rhs => sub (lhs.map f) (rhs.map f)

def eval [Add α] [Sub α] : Expression α → α
  | literal a => a
  | add lhs rhs => lhs.eval + rhs.eval
  | sub lhs rhs => lhs.eval - rhs.eval

/-- The sum of the literals' weights, and one for each operator. -/
def weight (w : α → ℕ) : Expression α → ℕ
  | literal a => w a
  | add lhs rhs | sub lhs rhs => lhs.weight w + rhs.weight w + 1

/-- The operands of every operator have a value in `P`. -/
def Operands [Add α] [Sub α] (P : α → Prop) : Expression α → Prop
  | literal _ => True
  | add lhs rhs | sub lhs rhs => (P lhs.eval ∧ P rhs.eval) ∧ lhs.Operands P ∧ rhs.Operands P

instance Operands.decidable [Add α] [Sub α] (P : α → Prop) [DecidablePred P] :
    ∀ e : Expression α, Decidable (e.Operands P)
  | literal _ => .isTrue trivial
  | add lhs rhs | sub lhs rhs =>
    have := Operands.decidable P lhs
    have := Operands.decidable P rhs
    inferInstanceAs (Decidable ((P lhs.eval ∧ P rhs.eval) ∧ lhs.Operands P ∧ rhs.Operands P))

/-- **Simulation rule**: `R k a b` says that `a` represents `b` with the weight `k`. The operators
need to keep this for operands in `P` and below the weight `m` only. -/
theorem eval_related [Add α] [Sub α] [Add β] [Sub β] {f : γ → α} {g : γ → β} {w : γ → ℕ}
    {P : β → Prop} {R : ℕ → α → β → Prop} {m : ℕ} (hliteral : ∀ c, R (w c) (f c) (g c))
    (hadd : ∀ {j k a a' b b'}, j + k + 1 ≤ m → P b → P b' → R j a b → R k a' b' →
      R (j + k + 1) (a + a') (b + b'))
    (hsub : ∀ {j k a a' b b'}, j + k + 1 ≤ m → P b → P b' → R j a b → R k a' b' →
      R (j + k + 1) (a - a') (b - b'))
    {e : Expression γ} (hP : (e.map g).Operands P) (hm : e.weight w ≤ m) :
    R (e.weight w) (e.map f).eval (e.map g).eval := by
  induction e with
  | literal c => exact hliteral c
  | add lhs rhs ihl ihr =>
    obtain ⟨⟨hl, hr⟩, hPl, hPr⟩ := hP
    have hm : lhs.weight w + rhs.weight w + 1 ≤ m := hm
    exact hadd hm hl hr (ihl hPl (by omega)) (ihr hPr (by omega))
  | sub lhs rhs ihl ihr =>
    obtain ⟨⟨hl, hr⟩, hPl, hPr⟩ := hP
    have hm : lhs.weight w + rhs.weight w + 1 ≤ m := hm
    exact hsub hm hl hr (ihl hPl (by omega)) (ihr hPr (by omega))

end Expression
