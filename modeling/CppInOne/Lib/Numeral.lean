import Mathlib.Data.Nat.Digits.Defs
import Mathlib.Tactic.Linarith
import Mathlib.Tactic.Ring

/-!
# Addition and subtraction digit by digit

Numbers to a base `b` are lists of digits, the lowest first, with the value `Nat.ofDigits b`. A
sum is computed with a carry and a difference with a borrow, from the lowest digit up, and the
operands may differ in length.

## Main results

- `ofDigits_addCarry`, `ofDigits_subBorrow` — the values
- `addCarry_cases` — a sum is as long as the longer operand, or has a 1 in front of that
- `ofDigits_lt_iff` — numbers of one length are ordered like their digits, the highest first
-/

namespace Numeral

variable {b : ℕ}

/-! ## Carry and borrow -/

def sumDigit (b x y : ℕ) (carry : Bool) : ℕ := (x + y + carry.toNat) % b

def sumCarry (b x y : ℕ) (carry : Bool) : Bool := b ≤ x + y + carry.toNat

def addCarry (b : ℕ) : Bool → List ℕ → List ℕ → List ℕ
  | carry, [], [] => List.replicate carry.toNat 1
  | carry, x :: xs, [] => sumDigit b x 0 carry :: addCarry b (sumCarry b x 0 carry) xs []
  | carry, [], y :: ys => sumDigit b 0 y carry :: addCarry b (sumCarry b 0 y carry) [] ys
  | carry, x :: xs, y :: ys => sumDigit b x y carry :: addCarry b (sumCarry b x y carry) xs ys

def diffBorrow (x y : ℕ) (borrow : Bool) : Bool := x < y + borrow.toNat

def diffDigit (b x y : ℕ) (borrow : Bool) : ℕ :=
  if diffBorrow x y borrow then x + b - (y + borrow.toNat) else x - (y + borrow.toNat)

/-- For a second operand that is not the longer one. -/
def subBorrow (b : ℕ) : Bool → List ℕ → List ℕ → List ℕ
  | _, [], _ => []
  | borrow, x :: xs, [] => diffDigit b x 0 borrow :: subBorrow b (diffBorrow x 0 borrow) xs []
  | borrow, x :: xs, y :: ys =>
    diffDigit b x y borrow :: subBorrow b (diffBorrow x y borrow) xs ys

/-! ## Sums -/

theorem sumDigit_add {x y : ℕ} (carry : Bool) (hx : x < b) (hy : y < b) :
    sumDigit b x y carry + b * (sumCarry b x y carry).toNat = x + y + carry.toNat := by
  have hcarry : carry.toNat ≤ 1 := Bool.toNat_le carry
  unfold sumDigit sumCarry
  by_cases h : b ≤ x + y + carry.toNat
  · rw [decide_eq_true h, Nat.mod_eq_sub_mod h, Nat.mod_eq_of_lt (by omega)]
    simp only [Bool.toNat_true]
    omega
  · rw [decide_eq_false h, Nat.mod_eq_of_lt (by omega)]
    simp

theorem addCarry_comm (carry : Bool) (xs ys : List ℕ) :
    addCarry b carry xs ys = addCarry b carry ys xs := by
  have hdigit : ∀ x y carry, sumDigit b x y carry = sumDigit b y x carry := by
    intro x y carry
    rw [sumDigit, sumDigit, Nat.add_comm x y]
  have hcarry : ∀ x y carry, sumCarry b x y carry = sumCarry b y x carry := by
    intro x y carry
    rw [sumCarry, sumCarry, Nat.add_comm x y]
  induction carry, xs, ys using addCarry.induct b with
  | case1 carry => rfl
  | case2 carry x xs ih => rw [addCarry, addCarry, ih, hdigit x 0, hcarry x 0]
  | case3 carry y ys ih => rw [addCarry, addCarry, ih, hdigit 0 y, hcarry 0 y]
  | case4 carry x xs y ys ih => rw [addCarry, addCarry, ih, hdigit x y, hcarry x y]

theorem ofDigits_addCarry {carry : Bool} {xs ys : List ℕ} (hb : 0 < b) (hxs : ∀ x ∈ xs, x < b)
    (hys : ∀ y ∈ ys, y < b) :
    Nat.ofDigits b (addCarry b carry xs ys) =
      Nat.ofDigits b xs + Nat.ofDigits b ys + carry.toNat := by
  induction carry, xs, ys using addCarry.induct b with
  | case1 carry => cases carry <;> simp [addCarry, Nat.ofDigits_singleton]
  | case2 carry x xs ih =>
    have hhead := sumDigit_add carry (hxs x List.mem_cons_self) hb
    rw [addCarry, Nat.ofDigits_cons, Nat.ofDigits_cons,
      ih (fun z hz => hxs z (List.mem_cons_of_mem x hz)) hys, Nat.ofDigits_nil]
    linarith
  | case3 carry y ys ih =>
    have hhead := sumDigit_add carry hb (hys y List.mem_cons_self)
    rw [addCarry, Nat.ofDigits_cons, Nat.ofDigits_cons,
      ih hxs fun z hz => hys z (List.mem_cons_of_mem y hz), Nat.ofDigits_nil]
    linarith
  | case4 carry x xs y ys ih =>
    have hhead := sumDigit_add carry (hxs x List.mem_cons_self) (hys y List.mem_cons_self)
    rw [addCarry, Nat.ofDigits_cons, Nat.ofDigits_cons, Nat.ofDigits_cons,
      ih (fun z hz => hxs z (List.mem_cons_of_mem x hz))
        fun z hz => hys z (List.mem_cons_of_mem y hz)]
    linarith

theorem lt_of_mem_addCarry {carry : Bool} {xs ys : List ℕ} (hb : 1 < b) {d : ℕ}
    (hd : d ∈ addCarry b carry xs ys) : d < b := by
  have hdigit : ∀ x y carry, sumDigit b x y carry < b := fun x y carry =>
    Nat.mod_lt _ (Nat.zero_lt_of_lt hb)
  induction carry, xs, ys using addCarry.induct b with
  | case1 carry =>
    rw [addCarry] at hd
    rw [List.eq_of_mem_replicate hd]
    exact hb
  | case2 carry x xs ih =>
    rw [addCarry] at hd
    obtain rfl | hd := List.mem_cons.mp hd
    · exact hdigit ..
    · exact ih hd
  | case3 carry y ys ih =>
    rw [addCarry] at hd
    obtain rfl | hd := List.mem_cons.mp hd
    · exact hdigit ..
    · exact ih hd
  | case4 carry x xs y ys ih =>
    rw [addCarry] at hd
    obtain rfl | hd := List.mem_cons.mp hd
    · exact hdigit ..
    · exact ih hd

/-- A sum is as long as the longer operand, or a carry stands in front of that. -/
theorem addCarry_cases (carry : Bool) (xs ys : List ℕ) :
    ∃ ds, ds.length = max xs.length ys.length ∧
      (addCarry b carry xs ys = ds ∨ addCarry b carry xs ys = ds ++ [1]) := by
  induction carry, xs, ys using addCarry.induct b with
  | case1 carry => cases carry <;> simp [addCarry]
  | case2 carry x xs ih =>
    obtain ⟨ds, hlen, hds⟩ := ih
    refine ⟨sumDigit b x 0 carry :: ds, by simpa using hlen, ?_⟩
    rw [addCarry]
    exact hds.imp (congrArg _) (congrArg _)
  | case3 carry y ys ih =>
    obtain ⟨ds, hlen, hds⟩ := ih
    refine ⟨sumDigit b 0 y carry :: ds, by simpa using hlen, ?_⟩
    rw [addCarry]
    exact hds.imp (congrArg _) (congrArg _)
  | case4 carry x xs y ys ih =>
    obtain ⟨ds, hlen, hds⟩ := ih
    refine ⟨sumDigit b x y carry :: ds, by simp [hlen], ?_⟩
    rw [addCarry]
    exact hds.imp (congrArg _) (congrArg _)

/-! ## Differences -/

theorem diffDigit_add (x : ℕ) {y : ℕ} (borrow : Bool) (hy : y < b) :
    diffDigit b x y borrow + (y + borrow.toNat) = x + b * (diffBorrow x y borrow).toNat := by
  have hborrow : borrow.toNat ≤ 1 := Bool.toNat_le borrow
  unfold diffDigit diffBorrow
  by_cases h : x < y + borrow.toNat
  · simp only [h, decide_true, if_true, Bool.toNat_true]
    omega
  · simp only [h, decide_false, Bool.false_eq_true, if_false, Bool.toNat_false]
    omega

theorem diffDigit_lt {x : ℕ} (y : ℕ) (borrow : Bool) (hx : x < b) : diffDigit b x y borrow < b := by
  unfold diffDigit diffBorrow
  split
  · next h =>
    have h := of_decide_eq_true h
    omega
  · omega

/-- What the higher digits have to make up for. -/
theorem le_of_cons_le {x y X Y : ℕ} {borrow : Bool} (hx : x < b)
    (h : y + b * Y + borrow.toNat ≤ x + b * X) : Y + (diffBorrow x y borrow).toNat ≤ X := by
  unfold diffBorrow
  by_cases hlt : x < y + borrow.toNat
  · simp only [hlt, decide_true, Bool.toNat_true]
    by_contra hX
    have hmul : b * X ≤ b * Y := Nat.mul_le_mul_left b (by omega)
    omega
  · simp only [hlt, decide_false, Bool.toNat_false]
    by_contra hX
    have hmul : b * (X + 1) ≤ b * Y := Nat.mul_le_mul_left b (by omega)
    rw [Nat.mul_add] at hmul
    omega

theorem ofDigits_subBorrow (borrow : Bool) {xs ys : List ℕ} (hb : 0 < b) (hxs : ∀ x ∈ xs, x < b)
    (hys : ∀ y ∈ ys, y < b) (hlen : ys.length ≤ xs.length)
    (h : Nat.ofDigits b ys + borrow.toNat ≤ Nat.ofDigits b xs) :
    Nat.ofDigits b (subBorrow b borrow xs ys) + Nat.ofDigits b ys + borrow.toNat =
      Nat.ofDigits b xs := by
  induction borrow, xs, ys using subBorrow.induct with
  | case1 borrow ys =>
    rw [List.length_nil, Nat.le_zero, List.length_eq_zero_iff] at hlen
    subst hlen
    rw [Nat.ofDigits_nil] at h
    rw [subBorrow, Nat.ofDigits_nil]
    omega
  | case2 borrow x xs ih =>
    have hx := hxs x List.mem_cons_self
    rw [Nat.ofDigits_cons, Nat.ofDigits_nil] at h
    have hle := le_of_cons_le (y := 0) (Y := 0) hx (by simpa using h)
    have hrest := ih (fun z hz => hxs z (List.mem_cons_of_mem x hz)) hys (Nat.zero_le _)
      (by rwa [Nat.ofDigits_nil])
    have hhead := diffDigit_add x borrow hb
    rw [subBorrow, Nat.ofDigits_cons, Nat.ofDigits_cons, ← hrest, Nat.ofDigits_nil]
    linarith
  | case3 borrow x xs y ys ih =>
    have hx := hxs x List.mem_cons_self
    rw [Nat.ofDigits_cons, Nat.ofDigits_cons] at h
    have hrest := ih (fun z hz => hxs z (List.mem_cons_of_mem x hz))
      (fun z hz => hys z (List.mem_cons_of_mem y hz)) (Nat.le_of_succ_le_succ hlen)
      (le_of_cons_le hx h)
    have hhead := diffDigit_add x borrow (hys y List.mem_cons_self)
    rw [subBorrow, Nat.ofDigits_cons, Nat.ofDigits_cons, Nat.ofDigits_cons, ← hrest]
    linarith

theorem lt_of_mem_subBorrow {borrow : Bool} {xs ys : List ℕ} (hxs : ∀ x ∈ xs, x < b) {d : ℕ}
    (hd : d ∈ subBorrow b borrow xs ys) : d < b := by
  induction borrow, xs, ys using subBorrow.induct with
  | case1 borrow ys => cases hd
  | case2 borrow x xs ih =>
    obtain rfl | hd := List.mem_cons.mp hd
    · exact diffDigit_lt _ _ (hxs x List.mem_cons_self)
    · exact ih (fun z hz => hxs z (List.mem_cons_of_mem x hz)) hd
  | case3 borrow x xs y ys ih =>
    obtain rfl | hd := List.mem_cons.mp hd
    · exact diffDigit_lt _ _ (hxs x List.mem_cons_self)
    · exact ih (fun z hz => hxs z (List.mem_cons_of_mem x hz)) hd

/-! ## Order -/

/-- Two numbers with equally many digits, written with the highest digit first. -/
theorem ofDigits_lt_iff (hb : 1 < b) (xs ys : List ℕ) (hxs : ∀ x ∈ xs, x < b)
    (hys : ∀ y ∈ ys, y < b) (hlen : xs.length = ys.length) :
    Nat.ofDigits b xs.reverse < Nat.ofDigits b ys.reverse ↔ xs < ys := by
  induction xs generalizing ys with
  | nil =>
    obtain rfl := List.length_eq_zero_iff.mp hlen.symm
    simp
  | cons x xs ih =>
    obtain ⟨y, ys, rfl⟩ := List.exists_cons_of_length_eq_add_one hlen.symm
    have hlen : xs.length = ys.length := Nat.succ.inj hlen
    have hxs' : ∀ z ∈ xs, z < b := fun z hz => hxs z (List.mem_cons_of_mem x hz)
    have hys' : ∀ z ∈ ys, z < b := fun z hz => hys z (List.mem_cons_of_mem y hz)
    have hX : Nat.ofDigits b xs.reverse < b ^ xs.length := by
      simpa using Nat.ofDigits_lt_base_pow_length (l := xs.reverse) hb (by simpa using hxs')
    have hY : Nat.ofDigits b ys.reverse < b ^ xs.length := by
      rw [hlen]
      simpa using Nat.ofDigits_lt_base_pow_length (l := ys.reverse) hb (by simpa using hys')
    rw [Nat.ofDigits_reverse_cons, Nat.ofDigits_reverse_cons, ← hlen, List.cons_lt_cons_iff,
      ← ih ys hxs' hys' hlen]
    obtain hlt | rfl | hgt := Nat.lt_trichotomy x y
    · have hmul : b ^ xs.length * (x + 1) ≤ b ^ xs.length * y := Nat.mul_le_mul_left _ hlt
      rw [Nat.mul_add] at hmul
      exact iff_of_true (by omega) (Or.inl hlt)
    · simp
    · have hmul : b ^ xs.length * (y + 1) ≤ b ^ xs.length * x := Nat.mul_le_mul_left _ hgt
      rw [Nat.mul_add] at hmul
      refine iff_of_false (by omega) ?_
      rintro (hlt | ⟨heq, -⟩)
      · omega
      · omega

end Numeral
