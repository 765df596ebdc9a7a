import Mathlib.Data.List.Basic
import Mathlib.Data.Nat.Basic
import Mathlib.Order.Basic

/-!
# Values in a sequence of bytes, and loops that read them

A coder writes a value in front of what follows it and reads it off again. A reading loop makes
passes over its input until the input is used up or a pass stops it.

## Main definitions

- `Coder` — writing and reading of one type of values, with its laws
- `Coder.map` — the same bytes for another type
- `ReadLoop.run` — passes until the input is used up

## Main results

- `ReadLoop.run_cons` — a loop is its first pass and the loop over the rest
- `ReadLoop.run_append` — reading one input after another
- `ReadLoop.run_eq_of_greedy` — a pass that reads on by itself gives the same result
-/

/-- How the values of a type are written and read. A value that is read back may have to be in
some domain, such as the strings of a bounded length. -/
structure Coder (β α : Type*) where
  write : α → List β
  read : List β → Option (α × List β)
  /-- The number of bytes, found without writing them. -/
  size : α → Nat
  Domain : α → Prop
  read_write : ∀ {a}, Domain a → ∀ rest, read (write a ++ rest) = some (a, rest)
  size_eq : ∀ a, size a = (write a).length
  length_lt : ∀ {bs a rest}, read bs = some (a, rest) → rest.length < bs.length
  read_append : ∀ {bs a rest}, read bs = some (a, rest) →
    ∀ cs, read (bs ++ cs) = some (a, rest ++ cs)

namespace Coder

variable {β α γ : Type*}

/-- The bytes of a coder under a conversion; only values that survive it are written. -/
def map (c : Coder β α) (f : α → γ) (g : γ → α) : Coder β γ where
  write x := c.write (g x)
  read bs := (c.read bs).map fun y => (f y.1, y.2)
  size x := c.size (g x)
  Domain x := c.Domain (g x) ∧ f (g x) = x
  read_write := by
    rintro x ⟨hdom, hx⟩ rest
    rw [c.read_write hdom, Option.map_some, hx]
  size_eq x := c.size_eq (g x)
  length_lt := by
    intro bs x rest h
    obtain ⟨⟨a, rest⟩, hread, heq⟩ := Option.map_eq_some_iff.mp h
    obtain ⟨rfl, rfl⟩ := Prod.mk.inj heq
    exact c.length_lt hread
  read_append := by
    intro bs x rest h cs
    obtain ⟨⟨a, rest⟩, hread, heq⟩ := Option.map_eq_some_iff.mp h
    obtain ⟨rfl, rfl⟩ := Prod.mk.inj heq
    rw [c.read_append hread, Option.map_some]

/-- What is read could have been written. -/
def Sound (c : Coder β α) : Prop :=
  ∀ ⦃bs a rest⦄, c.read bs = some (a, rest) → c.Domain a

/-- No value is read from fewer bytes than are written for it. -/
def Tight (c : Coder β α) : Prop :=
  ∀ ⦃bs a rest⦄, c.read bs = some (a, rest) → c.size a + rest.length ≤ bs.length

theorem map_read_eq_some {c : Coder β α} {f : α → γ} {g : γ → α} {bs rest : List β} {x : γ} :
    (c.map f g).read bs = some (x, rest) ↔ ∃ a, c.read bs = some (a, rest) ∧ f a = x := by
  simp only [map, Option.map_eq_some_iff, Prod.exists, Prod.mk.injEq]
  constructor
  · rintro ⟨a, _, hread, rfl, rfl⟩
    exact ⟨a, hread, rfl⟩
  · rintro ⟨a, hread, rfl⟩
    exact ⟨a, rest, hread, rfl, rfl⟩

theorem Sound.map {c : Coder β α} (hc : c.Sound) {f : α → γ} {g : γ → α}
    (hfg : ∀ a, g (f a) = a) : (c.map f g).Sound := by
  intro bs x rest h
  obtain ⟨a, hread, rfl⟩ := map_read_eq_some.mp h
  refine ⟨?_, ?_⟩
  · show c.Domain (g (f a))
    rw [hfg]
    exact hc hread
  · rw [hfg]

theorem Tight.map {c : Coder β α} (hc : c.Tight) {f : α → γ} {g : γ → α}
    (hle : ∀ a, c.size (g (f a)) ≤ c.size a) : (c.map f g).Tight := by
  intro bs x rest h
  obtain ⟨a, hread, rfl⟩ := map_read_eq_some.mp h
  exact (Nat.add_le_add_right (hle a) _).trans (hc hread)

/-- A type without encodings. -/
def never [Inhabited α] : Coder β α where
  write _ := []
  read _ := none
  size _ := 0
  Domain _ := False
  read_write := by simp
  size_eq _ := rfl
  length_lt := by simp
  read_append := by simp

/-- Sequences of a fixed length. -/
def fixed (β : Type*) (n : Nat) (hn : 0 < n) : Coder β (List β) where
  write b := b
  read bs := if n ≤ bs.length then some (bs.take n, bs.drop n) else none
  size b := b.length
  Domain b := b.length = n
  read_write := by
    rintro b rfl rest
    simp
  size_eq _ := rfl
  length_lt := by
    intro bs b rest h
    split at h
    · obtain ⟨-, rfl⟩ := Prod.mk.inj (Option.some.inj h)
      rw [List.length_drop]
      omega
    · cases h
  read_append := by
    intro bs b rest h cs
    split at h
    · next hle =>
      obtain ⟨rfl, rfl⟩ := Prod.mk.inj (Option.some.inj h)
      rw [if_pos (by rw [List.length_append]; omega), List.take_append_of_le_length hle,
        List.drop_append_of_le_length hle]
    · cases h

theorem fixed_read_eq_some {n : Nat} {hn : 0 < n} {bs b rest : List β}
    (h : (fixed β n hn).read bs = some (b, rest)) : b.length = n ∧ bs = b ++ rest := by
  simp only [fixed] at h
  split at h
  · next hle =>
    obtain ⟨rfl, rfl⟩ := Prod.mk.inj (Option.some.inj h)
    exact ⟨List.length_take_of_le hle, (List.take_append_drop n bs).symm⟩
  · cases h

theorem fixed_sound {n : Nat} {hn : 0 < n} : (fixed β n hn).Sound :=
  fun _ _ _ h => (fixed_read_eq_some h).1

theorem fixed_tight {n : Nat} {hn : 0 < n} : (fixed β n hn).Tight := by
  intro bs b rest h
  obtain ⟨-, rfl⟩ := fixed_read_eq_some h
  exact (List.length_append ..).ge

end Coder

namespace ReadLoop

variable {β σ ε : Type*}

/-- At most so many passes. -/
def passes (pass : σ → List β → Except ε (σ × List β)) : Nat → σ → List β → Except ε σ
  | 0, s, _ => .ok s
  | _ + 1, s, [] => .ok s
  | n + 1, s, b :: bs => (pass s (b :: bs)).bind fun x => passes pass n x.1 x.2

/-- Passes until the input is used up. Each pass takes something off, so there are not more of
them than there are bytes. -/
def run (pass : σ → List β → Except ε (σ × List β)) (s : σ) (bs : List β) : Except ε σ :=
  passes pass bs.length s bs

def Shrinks (pass : σ → List β → Except ε (σ × List β)) : Prop :=
  ∀ ⦃s bs s' rest⦄, pass s bs = .ok (s', rest) → rest.length < bs.length

/-- A pass does not depend on what stands behind the bytes it has read. -/
def Extends (pass : σ → List β → Except ε (σ × List β)) : Prop :=
  ∀ ⦃s bs s' rest⦄, pass s bs = .ok (s', rest) → ∀ cs, pass s (bs ++ cs) = .ok (s', rest ++ cs)

variable {pass greedy : σ → List β → Except ε (σ × List β)} {s s' : σ} {bs : List β}

theorem passes_of_le (hpass : Shrinks pass) {n : Nat} (hn : bs.length ≤ n) (s : σ) :
    passes pass n s bs = run pass s bs := by
  induction n using Nat.strongRecOn generalizing s bs with
  | ind n ih =>
    cases bs with
    | nil => cases n <;> rfl
    | cons b bs =>
      obtain ⟨n, rfl⟩ : ∃ k, n = k + 1 := ⟨n - 1, by simp at hn; omega⟩
      rw [run, List.length_cons, passes, passes]
      cases hstep : pass s (b :: bs) with
      | error e => rfl
      | ok x =>
        have hlt := hpass hstep
        simp only [List.length_cons] at hlt hn
        have hle : x.2.length ≤ bs.length := by omega
        show passes pass n x.1 x.2 = passes pass bs.length x.1 x.2
        obtain hlen | hlen := Nat.lt_or_ge bs.length n
        · rw [ih n (by omega) (by omega), ih bs.length (by omega) hle]
        · rw [Nat.le_antisymm (by omega) hlen]

@[simp] theorem run_nil (pass : σ → List β → Except ε (σ × List β)) (s : σ) :
    run pass s [] = .ok s := rfl

theorem run_cons (hpass : Shrinks pass) (s : σ) (hbs : bs ≠ []) :
    run pass s bs = (pass s bs).bind fun x => run pass x.1 x.2 := by
  obtain ⟨b, bs, rfl⟩ := List.exists_cons_of_ne_nil hbs
  rw [run, List.length_cons, passes]
  cases hstep : pass s (b :: bs) with
  | error e => rfl
  | ok x =>
    have hlt := hpass hstep
    exact passes_of_le hpass (by simp only [List.length_cons] at hlt; omega) x.1

theorem run_pass (hpass : Shrinks pass) {rest : List β} (h : pass s bs = .ok (s', rest)) :
    run pass s bs = run pass s' rest := by
  have hbs : bs ≠ [] := by
    rintro rfl
    simpa using hpass h
  rw [run_cons hpass s hbs, h]
  rfl

/-- The first pass of a loop that ends well, and the loop over the rest. -/
theorem exists_pass (hpass : Shrinks pass) (hbs : bs ≠ []) (h : run pass s bs = .ok s') :
    ∃ t rest, pass s bs = .ok (t, rest) ∧ run pass t rest = .ok s' := by
  rw [run_cons hpass s hbs] at h
  cases hstep : pass s bs with
  | error e => simp [hstep, Except.bind] at h
  | ok x => exact ⟨x.1, x.2, rfl, by rwa [hstep] at h⟩

theorem run_append (hpass : Shrinks pass) (hext : Extends pass) (h : run pass s bs = .ok s')
    (cs : List β) : run pass s (bs ++ cs) = run pass s' cs := by
  induction hn : bs.length using Nat.strongRecOn generalizing s bs with
  | ind n ih =>
    by_cases hbs : bs = []
    · subst hbs
      obtain rfl := Except.ok.inj h
      rfl
    · obtain ⟨t, rest, hstep, hrun⟩ := exists_pass hpass hbs h
      rw [run_pass hpass (hext hstep cs)]
      exact ih rest.length (hn ▸ hpass hstep) hrun rfl

/-- What each pass keeps, the loop keeps. -/
theorem run_invariant (hpass : Shrinks pass) {I : σ → Prop}
    (hI : ∀ ⦃s bs s' rest⦄, I s → pass s bs = .ok (s', rest) → I s')
    (hs : I s) (h : run pass s bs = .ok s') : I s' := by
  induction hn : bs.length using Nat.strongRecOn generalizing s bs with
  | ind n ih =>
    by_cases hbs : bs = []
    · subst hbs
      obtain rfl := Except.ok.inj h
      exact hs
    · obtain ⟨t, rest, hstep, hrun⟩ := exists_pass hpass hbs h
      exact ih rest.length (hn ▸ hpass hstep) (hI hs hstep) hrun rfl

/-- A measure that no pass raises by more than the bytes it takes off. -/
theorem run_measure_le (hpass : Shrinks pass) {μ : σ → Nat}
    (hμ : ∀ ⦃s bs s' rest⦄, pass s bs = .ok (s', rest) →
      μ s' + rest.length ≤ μ s + bs.length)
    (h : run pass s bs = .ok s') : μ s' ≤ μ s + bs.length := by
  induction hn : bs.length using Nat.strongRecOn generalizing s bs with
  | ind n ih =>
    by_cases hbs : bs = []
    · subst hbs
      obtain rfl := Except.ok.inj h
      omega
    · obtain ⟨t, rest, hstep, hrun⟩ := exists_pass hpass hbs h
      have hle := hμ hstep
      have hrest := ih rest.length (hn ▸ hpass hstep) hrun rfl
      omega

/-- A greedy pass does a plain pass and then, where it sees fit, another greedy one. -/
theorem run_eq_of_greedy (hpass : Shrinks pass) (hgreedy : Shrinks greedy)
    (more : σ → List β → σ × List β → Prop) [∀ s bs x, Decidable (more s bs x)]
    (hmore : ∀ ⦃s bs x⦄, more s bs x → x.2 ≠ [])
    (hstep : ∀ s bs, greedy s bs = (pass s bs).bind fun x =>
      if more s bs x then greedy x.1 x.2 else .ok x) (s : σ) (bs : List β) :
    run greedy s bs = run pass s bs := by
  induction hn : bs.length using Nat.strongRecOn generalizing s bs with
  | ind n ih =>
    by_cases hbs : bs = []
    · rw [hbs, run_nil, run_nil]
    rw [run_cons hgreedy s hbs, run_cons hpass s hbs, hstep]
    cases hplain : pass s bs with
    | error e => rfl
    | ok x =>
      have hih := ih x.2.length (hn ▸ hpass hplain) x.1 x.2 rfl
      by_cases hx : more s bs x
      · simp only [Except.bind, if_pos hx]
        exact (run_cons hgreedy x.1 (hmore hx)).symm.trans hih
      · simp only [Except.bind, if_neg hx]
        exact hih

end ReadLoop
