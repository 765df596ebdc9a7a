import Mathlib.Data.Fintype.Card
import CppInOne.Lib.Transition

/-!
# The queue of the log messages

`LockQueue` with any number of threads that push and the threads `P` that pop. What a thread
does between taking `m_mutex` and giving it back is one step. `notify_one` wakes up one of the
threads that wait, when there is one, and threads may wake up for no reason.

## Main definitions

- `LockQueue`, `LockQueue.step` — the queue, its threads and what they do

## Main results

- `delivered_in_order` — every message is popped once and in order, and no wakeup is lost
-/

namespace CppInOne.Mprpc
open Transition Function

/-- A thread that pops. -/
inductive Popper where
  /-- not in `Pop` -/
  | outside
  /-- in `Pop`, before it has the mutex -/
  | entering
  /-- asleep in `m_condvariable.wait` -/
  | waiting
  /-- woken up by `notify_one`, without the mutex -/
  | notified
  /-- awake for no reason, without the mutex -/
  | spurious
  deriving DecidableEq, Repr

structure LockQueue (P T : Type*) where
  m_queue : List T
  poppers : P → Popper
  /-- The arguments of `Push`, in the order of the critical sections. -/
  pushed : List T
  /-- What `Pop` has returned, in the order of the critical sections. -/
  popped : List T
  /-- `front` has been called on an empty queue. -/
  fault : Bool

namespace LockQueue

variable {P T : Type*}

/-- An empty queue that nobody uses yet. -/
def empty : LockQueue P T where
  m_queue := []
  poppers _ := .outside
  pushed := []
  popped := []
  fault := false

variable [DecidableEq P]

def setPopper (q : LockQueue P T) (p : P) (popper : Popper) : LockQueue P T :=
  { q with poppers := update q.poppers p popper }

@[simp] theorem setPopper_self (q : LockQueue P T) (p : P) (popper : Popper) :
    (q.setPopper p popper).poppers p = popper := by
  simp [setPopper]

theorem setPopper_of_ne (q : LockQueue P T) {p p' : P} (h : p' ≠ p) (popper : Popper) :
    (q.setPopper p popper).poppers p' = q.poppers p' := by
  simp [setPopper, h]

/-! ## The functions of the source -/

/-- `notify_one` may wake up this thread, or nobody. -/
def MayNotify (q : LockQueue P T) : Option P → Prop
  | some p => q.poppers p = .waiting
  | none => ∀ p, q.poppers p ≠ .waiting

instance [Fintype P] (q : LockQueue P T) (p : Option P) : Decidable (q.MayNotify p) :=
  match p with
  | some p => inferInstanceAs (Decidable (q.poppers p = .waiting))
  | none => inferInstanceAs (Decidable (∀ p, q.poppers p ≠ .waiting))

def notify_one (q : LockQueue P T) : Option P → LockQueue P T
  | some p => q.setPopper p .notified
  | none => q

def Push (q : LockQueue P T) (data : T) (woken : Option P) : LockQueue P T :=
  { q with m_queue := q.m_queue ++ [data], pushed := q.pushed ++ [data] }.notify_one woken

/-- `Pop` from a test of its loop on, with the mutex, until the mutex is given back. -/
def Pop (q : LockQueue P T) (p : P) : LockQueue P T :=
  if q.m_queue.isEmpty = true then q.setPopper p .waiting
  else
    match q.m_queue with
    -- `front` of an empty queue
    | [] => { q with fault := true }
    | data :: rest =>
      { q with m_queue := rest, popped := q.popped ++ [data] }.setPopper p .outside

theorem Push_m_queue (q : LockQueue P T) (data : T) (woken : Option P) :
    (q.Push data woken).m_queue = q.m_queue ++ [data] := by
  cases woken with
  | none => rfl
  | some p => rfl

theorem Pop_of_nil {q : LockQueue P T} (h : q.m_queue = []) (p : P) :
    q.Pop p = q.setPopper p .waiting := by
  rw [Pop, if_pos (by rw [h]; rfl)]

theorem Pop_of_cons {q : LockQueue P T} {data : T} {rest : List T} (h : q.m_queue = data :: rest)
    (p : P) : q.Pop p =
      { q with m_queue := rest, popped := q.popped ++ [data] }.setPopper p .outside := by
  rw [Pop, if_neg (by rw [h]; exact Bool.false_ne_true), h]

theorem Pop_m_queue (q : LockQueue P T) (p : P) : (q.Pop p).m_queue = q.m_queue.tail := by
  cases h : q.m_queue with
  | nil => rw [Pop_of_nil h, setPopper, h, List.tail_nil]
  | cons data rest => rw [Pop_of_cons h, setPopper, List.tail_cons]

/-! ## Steps -/

inductive Action (P T : Type*) where
  /-- Any thread pushes a message. -/
  | push (data : T) (woken : Option P)
  /-- This thread calls `Pop`. -/
  | call (p : P)
  /-- This thread gets the mutex in `Pop`. -/
  | pop (p : P)
  /-- This thread wakes up for no reason. -/
  | spurious (p : P)
  deriving DecidableEq, Repr

variable [Fintype P]

/-- `Push` is one step up to and with `notify_one`, since it has the mutex all the while and nobody
falls asleep in between. In `ThreadsTele.Queue.step` the two are steps of their own. -/
def step (q : LockQueue P T) : Action P T → Option (LockQueue P T)
  | .push data woken => if q.MayNotify woken then some (q.Push data woken) else none
  | .call p => if q.poppers p = .outside then some (q.setPopper p .entering) else none
  | .pop p =>
    match q.poppers p with
    | .entering | .notified | .spurious => some (q.Pop p)
    | .outside | .waiting => none
  | .spurious p => if q.poppers p = .waiting then some (q.setPopper p .spurious) else none

/-- The threads that `notify_one` has woken up and that have not looked at the queue yet. -/
def notified (q : LockQueue P T) : Finset P :=
  Finset.univ.filter fun p => q.poppers p = .notified

omit [DecidableEq P] in
theorem mem_notified {q : LockQueue P T} {p : P} : p ∈ q.notified ↔ q.poppers p = .notified := by
  simp [notified]

theorem notified_setPopper (q : LockQueue P T) (p : P) {popper : Popper}
    (hpopper : popper ≠ .notified) : (q.setPopper p popper).notified = q.notified.erase p := by
  ext p'
  rw [mem_notified, Finset.mem_erase, mem_notified]
  by_cases hp : p' = p
  · subst hp
    simp [hpopper]
  · rw [q.setPopper_of_ne hp]
    simp [hp]

theorem notified_notify_one (q : LockQueue P T) (p : P) :
    (q.notify_one (some p)).notified = insert p q.notified := by
  ext p'
  rw [mem_notified, Finset.mem_insert, mem_notified, notify_one]
  by_cases hp : p' = p
  · subst hp
    simp
  · rw [q.setPopper_of_ne hp]
    simp [hp]

/-! ## The invariant -/

/-- What was pushed is what was popped and what waits, and while a thread sleeps there is a
wakeup on its way for every message that waits. -/
structure Inv (q : LockQueue P T) : Prop where
  order : q.popped ++ q.m_queue = q.pushed
  sound : q.fault = false
  wakeups : (∃ p, q.poppers p = .waiting) → q.m_queue.length ≤ q.notified.card

omit [DecidableEq P] in
theorem inv_empty : (empty : LockQueue P T).Inv :=
  ⟨rfl, rfl, fun ⟨_, hp⟩ => nomatch hp⟩

namespace Inv

variable {q : LockQueue P T}

/-- A thread changes its place without taking a wakeup or falling asleep. -/
theorem setPopper (h : q.Inv) {p : P} {popper : Popper} (hp : q.poppers p ≠ .notified)
    (hnotified : popper ≠ .notified) (hwaiting : popper ≠ .waiting) :
    (q.setPopper p popper).Inv := by
  refine ⟨h.order, h.sound, fun ⟨p', hp'⟩ => ?_⟩
  have hold : q.poppers p' = .waiting := by
    by_cases heq : p' = p
    · rw [heq, setPopper_self] at hp'
      exact absurd hp' hwaiting
    · rwa [q.setPopper_of_ne heq] at hp'
  have hsame : q.notified.erase p = q.notified :=
    Finset.erase_eq_of_notMem (mt mem_notified.mp hp)
  rw [q.notified_setPopper p hnotified, hsame]
  exact h.wakeups ⟨p', hold⟩

theorem push (h : q.Inv) (data : T) {woken : Option P} (hwoken : q.MayNotify woken) :
    (q.Push data woken).Inv := by
  have horder : q.popped ++ (q.m_queue ++ [data]) = q.pushed ++ [data] := by
    rw [← List.append_assoc, h.order]
  cases woken with
  | none => exact ⟨horder, h.sound, fun ⟨p, hp⟩ => absurd hp (hwoken p)⟩
  | some p =>
    refine ⟨horder, h.sound, fun _ => ?_⟩
    -- the sleeper that is woken up pays for the new message
    have hold := h.wakeups ⟨p, hwoken⟩
    have hnew : p ∉ q.notified := by
      rw [mem_notified, hwoken]
      exact Popper.noConfusion
    have hcard : (q.Push data (some p)).notified.card = q.notified.card + 1 := by
      rw [Push, notified_notify_one]
      exact Finset.card_insert_of_notMem hnew
    have hlength : (q.Push data (some p)).m_queue.length = q.m_queue.length + 1 := by
      show (q.m_queue ++ [data]).length = _
      rw [List.length_append]
      rfl
    omega

theorem pop (h : q.Inv) (p : P) : (q.Pop p).Inv := by
  cases hqueue : q.m_queue with
  | nil =>
    rw [Pop_of_nil hqueue]
    refine ⟨h.order, h.sound, fun _ => ?_⟩
    show q.m_queue.length ≤ _
    rw [hqueue]
    exact Nat.zero_le _
  | cons data rest =>
    rw [Pop_of_cons hqueue]
    refine ⟨?_, h.sound, fun ⟨p', hp'⟩ => ?_⟩
    · show q.popped ++ [data] ++ rest = q.pushed
      rw [← h.order, hqueue, List.append_assoc]
      rfl
    · have hne : p' ≠ p := by
        rintro rfl
        rw [setPopper_self] at hp'
        cases hp'
      rw [setPopper_of_ne _ hne] at hp'
      have hold := h.wakeups ⟨p', hp'⟩
      rw [hqueue, List.length_cons] at hold
      -- at most one wakeup goes with the message
      have herase := Finset.pred_card_le_card_erase (s := q.notified) (a := p)
      rw [notified_setPopper _ p Popper.noConfusion]
      show rest.length ≤ (q.notified.erase p).card
      omega

theorem step (q : LockQueue P T) (a : Action P T) (q' : LockQueue P T) (h : q.Inv)
    (hs : q.step a = some q') : q'.Inv := by
  cases a with
  | push data woken =>
    obtain ⟨hwoken, hs⟩ := Option.ite_none_right_eq_some.mp hs
    cases hs
    exact h.push data hwoken
  | call p =>
    obtain ⟨hp, hs⟩ := Option.ite_none_right_eq_some.mp hs
    cases hs
    exact h.setPopper (by rw [hp]; exact Popper.noConfusion) Popper.noConfusion Popper.noConfusion
  | pop p =>
    simp only [LockQueue.step] at hs
    split at hs
    · cases hs
      exact h.pop p
    · cases hs
      exact h.pop p
    · cases hs
      exact h.pop p
    · cases hs
    · cases hs
  | spurious p =>
    obtain ⟨hp, hs⟩ := Option.ite_none_right_eq_some.mp hs
    cases hs
    exact h.setPopper (by rw [hp]; exact Popper.noConfusion) Popper.noConfusion Popper.noConfusion

end Inv

/-- **Every message is delivered once and in order, and no wakeup is lost.** With any number of
threads that push, and at least one that pops, in every state: what `Pop` has returned is a
prefix of what was pushed, `front` was never called on an empty queue, and while a thread
sleeps there are at least as many wakeups on their way as there are messages in the queue,
so that no message waits while all threads sleep. -/
theorem delivered_in_order [Nonempty P] (q : LockQueue P T) (hq : Reachable step empty q) :
    q.popped <+: q.pushed ∧ q.fault = false ∧
      ((∃ p, q.poppers p = .waiting) → q.m_queue.length ≤ q.notified.card) ∧
      ¬ (q.m_queue ≠ [] ∧ ∀ p, q.poppers p = .waiting) := by
  have h : q.Inv := reachable_invariant Inv.step inv_empty hq
  refine ⟨?_, h.sound, h.wakeups, fun ⟨hne, hall⟩ => ?_⟩
  · rw [← h.order]
    exact List.prefix_append _ _
  · have hnone : q.notified = ∅ := by
      rw [Finset.eq_empty_iff_forall_notMem]
      intro p hp
      rw [mem_notified, hall p] at hp
      cases hp
    have hlength := h.wakeups ⟨Classical.arbitrary P, hall _⟩
    rw [hnone, Finset.card_empty, Nat.le_zero, List.length_eq_zero_iff] at hlength
    exact hne hlength

/-- Two threads sleep, one is woken up for a message, and the other one, awake for no reason,
takes it first. -/
def stolen : List (Action Bool Nat) :=
  [.call true, .call false, .pop true, .pop false, .push 7 (some true), .spurious false,
    .pop false, .pop true]

theorem delivered_in_order_stolen :
    ∃ q, run step (empty : LockQueue Bool Nat) stolen = some q ∧
      q.popped = [7] ∧ q.popped <+: q.pushed ∧ q.fault = false := by
  refine ⟨_, rfl, rfl, ?_⟩
  have hreach : Reachable step (empty : LockQueue Bool Nat) _ := ⟨stolen, rfl⟩
  obtain ⟨horder, hsound, _⟩ := delivered_in_order _ hreach
  exact ⟨horder, hsound⟩

end LockQueue

end CppInOne.Mprpc
