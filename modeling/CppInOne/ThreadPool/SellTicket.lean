import Mathlib.Algebra.Order.BigOperators.Group.Finset
import Mathlib.Data.Fintype.BigOperators
import CppInOne.Lib.Transition

/-!
# Ticket windows

The threads of `mutex.cpp` sell the tickets of one counter. `sellTicket` tests the counter
without the mutex, and once more when it has it. A step is one load or store of the counter, an
operation on the mutex, a line of output, or the end of a pause; any thread may take the next
step. There are any number of windows and of tickets.

## Main results

- `sells_every_ticket` — in order, each once, in a bounded number of steps
-/

namespace CppInOne.SellTicket
open Function Transition

/-- Where a thread is in `sellTicket`. -/
inductive Pc where
  /-- before the test of the loop -/
  | loop
  | locking
  /-- with the mutex, before the second test -/
  | testing
  | printing
  /-- `count--`, before its load and before its store -/
  | loading
  | storing (count : Int)
  | unlocking
  | sleeping
  | returned
  deriving DecidableEq, Repr

structure Windows (T : Type*) where
  count : Int
  mtx : Option T
  pc : T → Pc
  /-- The lines of output, as the window and the number it prints. -/
  sold : List (T × Int)

variable {T : Type*}

/-- All threads are started. -/
def start (tickets : Nat) : Windows T where
  count := tickets
  mtx := none
  pc _ := .loop
  sold := []

section Steps
variable [DecidableEq T]

def Windows.setPc (w : Windows T) (t : T) (pc : Pc) : Windows T :=
  { w with pc := update w.pc t pc }

/-- The thread `t` goes on. -/
def step (w : Windows T) (t : T) : Option (Windows T) :=
  match w.pc t with
  | .loop => some (w.setPc t (if 0 < w.count then .locking else .returned))
  | .locking => if w.mtx = none then some { w.setPc t .testing with mtx := some t } else none
  | .testing => some (w.setPc t (if 0 < w.count then .printing else .unlocking))
  | .printing => some { w.setPc t .loading with sold := w.sold ++ [(t, w.count)] }
  | .loading => some (w.setPc t (.storing w.count))
  | .storing count => some { w.setPc t .unlocking with count := count - 1 }
  | .unlocking => some { w.setPc t .sleeping with mtx := none }
  | .sleeping => some (w.setPc t .loop)
  | .returned => none

end Steps

/-! ## The invariant -/

/-- Between taking the mutex and giving it back. -/
def Pc.Inside : Pc → Prop
  | .testing | .printing | .loading | .storing _ | .unlocking => True
  | .loop | .locking | .sleeping | .returned => False

/-- Behind the second test, with a ticket to sell. -/
def Pc.Selling : Pc → Prop
  | .printing | .loading | .storing _ => True
  | _ => False

/-- The ticket is printed and still counted. -/
def Pc.Printed : Pc → Prop
  | .loading | .storing _ => True
  | _ => False

theorem Pc.Selling.inside {pc : Pc} (h : pc.Selling) : pc.Inside := by
  cases pc <;> first | exact trivial | exact h

theorem Pc.Printed.selling {pc : Pc} (h : pc.Printed) : pc.Selling := by
  cases pc <;> first | exact trivial | exact h

/-- The tickets `tickets`, `tickets - 1` and so on, `k` of them. -/
def numbers (tickets k : Nat) : List Int := (List.range k).map fun (j : Nat) => (tickets : Int) - j

theorem numbers_succ (tickets k : Nat) :
    numbers tickets (k + 1) = numbers tickets k ++ [(tickets : Int) - k] := by
  rw [numbers, List.range_succ, List.map_append]
  rfl

structure Inv (tickets : Nat) (w : Windows T) : Prop where
  mutex : ∀ t, (w.pc t).Inside ↔ w.mtx = some t
  nonneg : 0 ≤ w.count
  bounded : w.count ≤ tickets
  selling : ∀ t, (w.pc t).Selling → 0 < w.count
  stored : ∀ t count, w.pc t = .storing count → count = w.count
  /-- The counter stands for the tickets not printed yet, but for the one being sold. -/
  printed : ∀ t, (w.pc t).Printed → w.count + w.sold.length = tickets + 1
  counted : (∀ t, ¬ (w.pc t).Printed) → w.count + w.sold.length = tickets
  order : w.sold.map Prod.snd = numbers tickets w.sold.length
  returned : ∀ t, w.pc t = .returned → w.count = 0

theorem inv_start (tickets : Nat) : Inv tickets (start tickets : Windows T) := by
  refine ⟨fun t => ?_, Int.natCast_nonneg tickets, le_rfl, ?_, ?_, ?_,
    fun _ => Int.add_zero _, rfl, ?_⟩
  · simp [start, Pc.Inside]
  all_goals simp [start, Pc.Selling, Pc.Printed]

variable {w w' : Windows T} {tickets : Nat}

/-- The thread with the mutex is the only one inside. -/
theorem Inv.eq_of_inside (h : Inv tickets w) {t t' : T} (ht : (w.pc t).Inside)
    (ht' : (w.pc t').Inside) : t = t' :=
  Option.some_inj.mp (((h.mutex t).mp ht).symm.trans ((h.mutex t').mp ht'))

variable [DecidableEq T]

/-- A thread moves on, and neither the counter nor the output changes. -/
theorem Inv.move (h : Inv tickets w) (t : T) {pc : Pc} {mtx : Option T}
    (hmutex : ∀ t', (update w.pc t pc t').Inside ↔ mtx = some t')
    (hselling : pc.Selling → 0 < w.count)
    (hstored : ∀ count, pc = .storing count → count = w.count)
    (hprinted : pc.Printed ↔ (w.pc t).Printed) (hreturned : pc = .returned → w.count = 0) :
    Inv tickets { w.setPc t pc with mtx := mtx } := by
  have hall : ∀ t', (update w.pc t pc t').Printed ↔ (w.pc t').Printed := by
    intro t'
    obtain rfl | hne := eq_or_ne t' t
    · rw [update_self, hprinted]
    · rw [update_of_ne hne]
  refine ⟨hmutex, h.nonneg, h.bounded, fun t' ht' => ?_, fun t' count ht' => ?_, fun t' ht' => ?_,
    fun hnone => ?_, h.order, fun t' ht' => ?_⟩
  · obtain rfl | hne := eq_or_ne t' t
    · exact hselling (by simpa [Windows.setPc] using ht')
    · exact h.selling t' (by simpa [Windows.setPc, hne] using ht')
  · obtain rfl | hne := eq_or_ne t' t
    · exact hstored count (by simpa [Windows.setPc] using ht')
    · exact h.stored t' count (by simpa [Windows.setPc, hne] using ht')
  · exact h.printed t' ((hall t').mp ht')
  · exact h.counted fun t' ht' => hnone t' ((hall t').mpr ht')
  · obtain rfl | hne := eq_or_ne t' t
    · exact hreturned (by simpa [Windows.setPc] using ht')
    · exact h.returned t' (by simpa [Windows.setPc, hne] using ht')

/-- Without an operation on the mutex, a thread stays inside or outside. -/
theorem Inv.mutex_update (h : Inv tickets w) {t : T} {pc : Pc}
    (hpc : pc.Inside ↔ (w.pc t).Inside) (t' : T) :
    (update w.pc t pc t').Inside ↔ w.mtx = some t' := by
  rw [← h.mutex t']
  obtain rfl | hne := eq_or_ne t' t
  · rw [update_self, hpc]
  · rw [update_of_ne hne]

/-- Taking the mutex. -/
theorem Inv.lock (h : Inv tickets w) {t : T} (hpc : w.pc t = .locking) (hfree : w.mtx = none) :
    Inv tickets { w.setPc t .testing with mtx := some t } := by
  refine h.move t (fun t' => ?_) (fun hf => hf.elim) (fun _ hf => by cases hf) ?_
    (fun hf => by cases hf)
  · obtain rfl | hne := eq_or_ne t' t
    · simp [Pc.Inside]
    · rw [update_of_ne hne, h.mutex t', hfree]
      exact ⟨fun hf => (by cases hf), fun heq => absurd (Option.some.inj heq).symm hne⟩
  · rw [hpc]
    exact Iff.rfl

/-- Giving it back. -/
theorem Inv.unlock (h : Inv tickets w) {t : T} (hpc : w.pc t = .unlocking) :
    Inv tickets { w.setPc t .sleeping with mtx := none } := by
  have hinside : (w.pc t).Inside := by
    rw [hpc]
    trivial
  refine h.move t (fun t' => ?_) (fun hf => hf.elim) (fun _ hf => by cases hf) ?_
    (fun hf => by cases hf)
  · obtain rfl | hne := eq_or_ne t' t
    · simp [Pc.Inside]
    · rw [update_of_ne hne]
      exact ⟨fun ht' => absurd (h.eq_of_inside ht' hinside) hne, fun hf => by cases hf⟩
  · rw [hpc]
    exact Iff.rfl

/-- The next number is printed. -/
theorem Inv.print (h : Inv tickets w) {t : T} (hpc : w.pc t = .printing) :
    Inv tickets { w.setPc t .loading with sold := w.sold ++ [(t, w.count)] } := by
  have hinside : (w.pc t).Inside := by
    rw [hpc]
    trivial
  have hpos : 0 < w.count := h.selling t (by rw [hpc]; trivial)
  -- nobody else is inside, so no ticket is being sold yet
  have hnone : ∀ t', ¬ (w.pc t').Printed := by
    intro t' ht'
    obtain rfl := h.eq_of_inside ht'.selling.inside hinside
    rw [hpc] at ht'
    exact ht'
  have hcounted := h.counted hnone
  have hlength : ((w.sold ++ [(t, w.count)]).length : Int) = w.sold.length + 1 := by simp
  refine ⟨h.mutex_update (by rw [hpc]; exact Iff.rfl), h.nonneg, h.bounded, fun _ _ => hpos,
    fun t' count ht' => ?_, fun t' _ => ?_, fun hall => ?_, ?_, fun t' ht' => ?_⟩
  · obtain rfl | hne := eq_or_ne t' t
    · simp [Windows.setPc] at ht'
    · exact h.stored t' count (by simpa [Windows.setPc, hne] using ht')
  · show w.count + ((w.sold ++ [(t, w.count)]).length : Int) = _
    rw [hlength]
    omega
  · exact absurd (show (update w.pc t .loading t).Printed by simp [Pc.Printed]) (hall t)
  · have hcount : w.count = (tickets : Int) - w.sold.length := by omega
    rw [List.map_append, h.order, List.length_append, List.length_singleton, numbers_succ,
      ← hcount]
    rfl
  · obtain rfl | hne := eq_or_ne t' t
    · simp [Windows.setPc] at ht'
    · exact h.returned t' (by simpa [Windows.setPc, hne] using ht')

/-- The ticket is taken off the counter. -/
theorem Inv.store (h : Inv tickets w) {t : T} {count : Int} (hpc : w.pc t = .storing count) :
    Inv tickets { w.setPc t .unlocking with count := count - 1 } := by
  have hinside : (w.pc t).Inside := by
    rw [hpc]
    trivial
  have hselling : (w.pc t).Selling := by
    rw [hpc]
    trivial
  have hpos : 0 < w.count := h.selling t hselling
  have hcount : count = w.count := h.stored t count hpc
  have hprinted := h.printed t (by rw [hpc]; trivial)
  have hidle : ∀ t', ¬ (update w.pc t .unlocking t').Selling := by
    intro t' ht'
    obtain rfl | hne := eq_or_ne t' t
    · simp [Pc.Selling] at ht'
    · rw [update_of_ne hne] at ht'
      exact hne (h.eq_of_inside ht'.inside hinside)
  have hbounded := h.bounded
  refine ⟨h.mutex_update (by rw [hpc]; exact Iff.rfl), ?_, ?_,
    fun t' ht' => absurd ht' (hidle t'), fun t' count' ht' => absurd ?_ (hidle t'),
    fun t' ht' => absurd ht'.selling (hidle t'),
    fun _ => ?_, h.order, fun t' ht' => ?_⟩
  · show 0 ≤ count - 1
    omega
  · show count - 1 ≤ tickets
    omega
  · have hstoring : update w.pc t .unlocking t' = .storing count' := ht'
    rw [hstoring]
    trivial
  · show count - 1 + (w.sold.length : Int) = tickets
    omega
  · obtain rfl | hne := eq_or_ne t' t
    · simp [Windows.setPc] at ht'
    · have hzero := h.returned t' (by simpa [Windows.setPc, hne] using ht')
      omega

theorem Inv.step (w : Windows T) (t : T) (w' : Windows T) (h : Inv tickets w)
    (hs : step w t = some w') : Inv tickets w' := by
  -- a step that only moves the thread
  have hmove : ∀ pc : Pc, (pc.Inside ↔ (w.pc t).Inside) → (pc.Selling → 0 < w.count) →
      (∀ count, pc = .storing count → count = w.count) → (pc.Printed ↔ (w.pc t).Printed) →
      (pc = .returned → w.count = 0) → Inv tickets (w.setPc t pc) :=
    fun pc hin hsell hstore hprint hret =>
      h.move t (h.mutex_update hin) hsell hstore hprint hret
  cases hpc : w.pc t with
  | loop =>
    simp only [SellTicket.step, hpc, Option.some.injEq] at hs
    subst hs
    rw [hpc] at hmove
    split
    · exact hmove _ Iff.rfl (fun hf => hf.elim) (fun _ hf => by cases hf) Iff.rfl
        fun hf => by cases hf
    · next hsold =>
      -- no ticket is left, and none comes back
      have hnonneg := h.nonneg
      exact hmove _ Iff.rfl (fun hf => hf.elim) (fun _ hf => by cases hf) Iff.rfl
        fun _ => by omega
  | locking =>
    simp only [SellTicket.step, hpc] at hs
    obtain ⟨hfree, hs⟩ := Option.ite_none_right_eq_some.mp hs
    cases hs
    exact h.lock hpc hfree
  | testing =>
    simp only [SellTicket.step, hpc, Option.some.injEq] at hs
    subst hs
    rw [hpc] at hmove
    split
    · next hleft =>
      exact hmove _ Iff.rfl (fun _ => hleft) (fun _ hf => by cases hf) Iff.rfl
        fun hf => by cases hf
    · exact hmove _ Iff.rfl (fun hf => hf.elim) (fun _ hf => by cases hf) Iff.rfl
        fun hf => by cases hf
  | printing =>
    simp only [SellTicket.step, hpc, Option.some.injEq] at hs
    exact hs ▸ h.print hpc
  | loading =>
    simp only [SellTicket.step, hpc, Option.some.injEq] at hs
    subst hs
    rw [hpc] at hmove
    -- what is loaded is what there is: the thread has the mutex
    exact hmove _ Iff.rfl (fun _ => h.selling t (by rw [hpc]; trivial))
      (fun _ heq => (Pc.storing.inj heq).symm) Iff.rfl fun hf => by cases hf
  | storing count =>
    simp only [SellTicket.step, hpc, Option.some.injEq] at hs
    exact hs ▸ h.store hpc
  | unlocking =>
    simp only [SellTicket.step, hpc, Option.some.injEq] at hs
    exact hs ▸ h.unlock hpc
  | sleeping =>
    simp only [SellTicket.step, hpc, Option.some.injEq] at hs
    subst hs
    rw [hpc] at hmove
    exact hmove _ Iff.rfl (fun hf => hf.elim) (fun _ hf => by cases hf) Iff.rfl
      fun hf => by cases hf
  | returned => simp [SellTicket.step, hpc] at hs

/-! ## Termination -/

/-- A bound on the steps that a thread takes before the next ticket is sold; `left` tells
whether there is one. -/
def Pc.weight (left : Bool) : Pc → Nat
  | .loop => if left then 7 else 1
  | .locking => if left then 6 else 5
  | .testing => if left then 5 else 4
  | .printing => 4
  | .loading => 3
  | .storing _ => 2
  | .unlocking => if left then 9 else 3
  | .sleeping => if left then 8 else 2
  | .returned => 0

theorem Pc.weight_le (left : Bool) (pc : Pc) : pc.weight left ≤ pc.weight true := by
  cases left with
  | true => exact le_rfl
  | false => cases pc <;> simp [weight]

variable [Fintype T]

/-- A bound on the steps that are left. -/
def measure (w : Windows T) : Nat :=
  8 * w.count.toNat + ∑ t, (w.pc t).weight (decide (0 < w.count))

/-- One thread moves, and the others do not get heavier. -/
theorem sum_le_of_update {f g : T → Nat} (t : T) (h : ∀ t', t' ≠ t → g t' ≤ f t') :
    ∑ t', g t' + f t ≤ ∑ t', f t' + g t := by
  have hf := Finset.add_sum_erase Finset.univ f (Finset.mem_univ t)
  have hg := Finset.add_sum_erase Finset.univ g (Finset.mem_univ t)
  have hrest : ∑ t' ∈ Finset.univ.erase t, g t' ≤ ∑ t' ∈ Finset.univ.erase t, f t' := by
    apply Finset.sum_le_sum
    intro t' ht'
    exact h t' (Finset.ne_of_mem_erase ht')
  omega

/-- A thread moves to a lighter place, and the counter stays. -/
theorem measure_lt {w' : Windows T} {t : T} {pc : Pc} (hcount : w'.count = w.count)
    (hpc : w'.pc = update w.pc t pc)
    (hlt : pc.weight (decide (0 < w.count)) < (w.pc t).weight (decide (0 < w.count))) :
    measure w' < measure w := by
  have hsum := sum_le_of_update (f := fun t' => (w.pc t').weight (decide (0 < w.count)))
    (g := fun t' => (update w.pc t pc t').weight (decide (0 < w.count))) t fun t' hne => by
      rw [update_of_ne hne]
  rw [update_self] at hsum
  rw [measure, measure, hcount, hpc]
  omega

/-- The ticket that is sold pays for another round of the loop. -/
theorem measure_store (h : Inv tickets w) {t : T} {count : Int}
    (hpc : w.pc t = .storing count) :
    measure { w.setPc t .unlocking with count := count - 1 } < measure w := by
  have hpos : 0 < w.count := h.selling t (by rw [hpc]; trivial)
  have hcount : count = w.count := h.stored t count hpc
  subst hcount
  have hsum := sum_le_of_update (f := fun t' => (w.pc t').weight true)
    (g := fun t' => (update w.pc t .unlocking t').weight (decide (0 < w.count - 1))) t
    fun t' hne => by
      rw [update_of_ne hne]
      exact Pc.weight_le _ _
  have hstoring : (w.pc t).weight true = 2 := by
    rw [hpc]
    rfl
  have hunlocking : (update w.pc t .unlocking t).weight (decide (0 < w.count - 1)) ≤ 9 := by
    rw [update_self]
    exact Pc.weight_le _ _
  have hleft : decide (0 < w.count) = true := decide_eq_true hpos
  rw [measure, measure, hleft]
  show 8 * (w.count - 1).toNat + ∑ t', (update w.pc t .unlocking t').weight
    (decide (0 < w.count - 1)) < _
  omega

theorem measure_step (h : Inv tickets w) {t : T} {w' : Windows T} (hs : step w t = some w') :
    measure w' < measure w := by
  cases hpc : w.pc t with
  | storing count =>
    simp only [SellTicket.step, hpc, Option.some.injEq] at hs
    exact hs ▸ measure_store h hpc
  | locking =>
    simp only [SellTicket.step, hpc] at hs
    obtain ⟨hfree, hs⟩ := Option.ite_none_right_eq_some.mp hs
    cases hs
    refine measure_lt rfl rfl ?_
    rw [hpc]
    by_cases hleft : 0 < w.count <;> simp [hleft, Pc.weight]
  | returned => simp [SellTicket.step, hpc] at hs
  | loop | testing | printing | loading | unlocking | sleeping =>
    simp only [SellTicket.step, hpc, Option.some.injEq] at hs
    subst hs
    refine measure_lt rfl rfl ?_
    rw [hpc]
    by_cases hleft : 0 < w.count <;> simp [hleft, Pc.weight]

omit [DecidableEq T] in
theorem measure_start (tickets : Nat) :
    measure (start tickets : Windows T) ≤ 8 * tickets + 7 * Fintype.card T := by
  have hsum : ∑ t : T, ((start tickets : Windows T).pc t).weight
      (decide (0 < (start tickets : Windows T).count)) ≤ ∑ _t : T, 7 :=
    Finset.sum_le_sum fun t _ => Pc.weight_le _ .loop
  have hsevens : ∑ _t : T, 7 = Fintype.card T * 7 := Finset.sum_const_nat fun _ _ => rfl
  have hcount : (start tickets : Windows T).count.toNat = tickets := Int.toNat_natCast tickets
  rw [measure, hcount]
  omega

omit [Fintype T] in
/-- A thread that cannot go on has returned, unless another one has the mutex and can. -/
theorem Inv.returned_of_stuck (h : Inv tickets w) (hstuck : ∀ t, SellTicket.step w t = none)
    (t : T) : w.pc t = .returned := by
  have hfree : w.mtx = none := by
    cases hm : w.mtx with
    | none => rfl
    | some holder =>
      have hinside := (h.mutex holder).mpr hm
      have hnone := hstuck holder
      cases hpc : w.pc holder <;> simp [SellTicket.step, hpc, Pc.Inside] at hnone hinside
  have hnone := hstuck t
  cases hpc : w.pc t <;> simp [SellTicket.step, hpc, hfree] at hnone
  rfl

/-- **Every ticket is sold once.** For any number of windows and tickets, in whatever order
the threads take their steps: the counter never leaves the range from 0 to the number of
tickets, the windows print the numbers from the highest down without a gap or a repetition,
the threads take a bounded number of steps, and when no thread can go on every thread has
returned and every ticket is sold. -/
theorem sells_every_ticket [Nonempty T] (tickets : Nat) (ts : List T) (w : Windows T)
    (hrun : run step (start tickets) ts = some w) :
    (0 ≤ w.count ∧ w.count ≤ tickets) ∧
      w.sold.map Prod.snd = numbers tickets w.sold.length ∧
      ts.length ≤ 8 * tickets + 7 * Fintype.card T ∧
      ((∀ t, step w t = none) →
        (∀ t, w.pc t = .returned) ∧ w.count = 0 ∧ w.sold.length = tickets) := by
  have hinv : Inv tickets w := reachable_invariant Inv.step (inv_start tickets) ⟨ts, hrun⟩
  have hlength := run_length_le (I := Inv tickets) (μ := measure)
    (fun w t w' h hs => ⟨h.step w t w' hs, measure_step h hs⟩) (inv_start tickets) hrun
  have hstart := measure_start (T := T) tickets
  refine ⟨⟨hinv.nonneg, hinv.bounded⟩, hinv.order, by omega, fun hstuck => ?_⟩
  have hall := hinv.returned_of_stuck hstuck
  obtain ⟨t⟩ := ‹Nonempty T›
  have hzero := hinv.returned t (hall t)
  have hcounted := hinv.counted fun t' ht' => by
    rw [hall t'] at ht'
    exact ht'
  exact ⟨hall, hzero, by omega⟩

/-- Both windows have passed the test of the loop when the last ticket is sold. -/
def lastTicket : List (Fin 2) := [0, 1, 0, 0, 0, 0, 0, 0, 1, 1, 1, 1, 1, 0, 0]

theorem sells_every_ticket_last :
    ∃ w : Windows (Fin 2), run step (start 1) lastTicket = some w ∧
      w.count = 0 ∧ w.sold.length = 1 := by
  refine ⟨_, rfl, ?_⟩
  obtain ⟨_, _, _, hend⟩ := sells_every_ticket 1 lastTicket _ rfl
  exact (hend (by decide)).2

end CppInOne.SellTicket
