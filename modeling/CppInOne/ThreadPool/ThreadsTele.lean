import CppInOne.Lib.Transition
import Mathlib.Logic.Function.Basic

/-!
# The queue of `threads_tele.cpp`

`Queue` holds one element at most. Any number of threads put and take elements, and all of them
wait on the same condition variable, those that put for an empty queue and those that take for an
element.

A thread goes on in steps: it gets the mutex, tests the condition of its loop, changes the queue,
calls `notify_all` and gives the mutex back. `wait` gives the mutex back and falls asleep in one
step. Threads may wake up for no reason.

## Main definitions

- `Queue`, `Queue.step` — the queue, its threads and what they do
- `Inv` — who is in its critical section, and who may sleep

## Main results

- `single_slot` — one element at most, in order, and nobody sleeps for no reason
- `asleep_before_notify` — but for the moment between a change of the queue and `notify_all`
-/

namespace CppInOne.ThreadsTele
open Transition Function

/-- A call with its arguments. -/
inductive Call where
  | put (val : Int32)
  | get
  deriving DecidableEq, Repr

/-- How far a thread has come in its call. -/
inductive Thread where
  /-- not in a call -/
  | outside
  /-- waiting for the mutex, at first -/
  | entering (call : Call)
  /-- with the mutex, before the test of the loop -/
  | testing (call : Call)
  /-- with the mutex, behind the loop -/
  | changing (call : Call)
  /-- with the mutex, before `notify_all` -/
  | notifying
  /-- with the mutex, behind `notify_all` -/
  | leaving
  /-- asleep in `wait` -/
  | waiting (call : Call)
  /-- awake in `wait`, without the mutex -/
  | woken (call : Call)
  deriving DecidableEq, Repr

/-- Between taking the mutex and giving it back. -/
def Thread.Inside : Thread → Prop
  | .testing _ | .changing _ | .notifying | .leaving => True
  | .outside | .entering _ | .waiting _ | .woken _ => False

structure Queue (T : Type*) where
  que : List Int32
  mtx : Option T
  threads : T → Thread
  /-- The values put, in the order of the critical sections. -/
  puts : List Int32
  /-- What `get` has taken out to return it, in the order of the critical sections. -/
  gets : List Int32
  /-- `front` has been called on an empty queue. -/
  fault : Bool

/-- The condition of the loop: `put` waits while there is an element, `get` while there is none. -/
def Call.Blocked (que : List Int32) : Call → Prop
  | .put _ => que ≠ []
  | .get => que = []

instance Call.Blocked.decidable (que : List Int32) : (call : Call) → Decidable (call.Blocked que)
  | .put _ => inferInstanceAs (Decidable (que ≠ []))
  | .get => inferInstanceAs (Decidable (que = []))

namespace Queue

variable {T : Type*}

def start : Queue T where
  que := []
  mtx := none
  threads _ := .outside
  puts := []
  gets := []
  fault := false

/-- `cv.notify_all()` -/
def notify_all (q : Queue T) : Queue T :=
  { q with
    threads t :=
      match q.threads t with
      | .waiting call => .woken call
      | thread => thread }

/-- `que.push(val)`, or `que.front()` and `que.pop()`. -/
def change (q : Queue T) : Call → Queue T
  | .put val => { q with que := q.que ++ [val], puts := q.puts ++ [val] }
  | .get =>
    match q.que with
    | [] => { q with fault := true }
    | val :: rest => { q with que := rest, gets := q.gets ++ [val] }

@[simp] theorem change_threads (q : Queue T) (call : Call) :
    (q.change call).threads = q.threads := by
  cases call with
  | put val => rfl
  | get =>
    simp only [change]
    split
    · rfl
    · rfl

@[simp] theorem change_mtx (q : Queue T) (call : Call) : (q.change call).mtx = q.mtx := by
  cases call with
  | put val => rfl
  | get =>
    simp only [change]
    split
    · rfl
    · rfl

/-- `notify_all` ends the sleep of all threads, and that is all. -/
theorem notify_all_threads (q : Queue T) (t : T) :
    (∃ call, q.threads t = .waiting call ∧ q.notify_all.threads t = .woken call) ∨
      (∀ call, q.threads t ≠ .waiting call) ∧ q.notify_all.threads t = q.threads t := by
  simp only [notify_all]
  split
  · rename_i call ht
    exact .inl ⟨call, ht, rfl⟩
  · rename_i hne
    exact .inr ⟨hne, rfl⟩

variable [DecidableEq T]

def setThread (q : Queue T) (t : T) (thread : Thread) : Queue T :=
  { q with threads := update q.threads t thread }

/-- `unique_lock<std::mutex> lck(mtx)`, also at the end of `wait`. -/
def lock (q : Queue T) (t : T) (call : Call) : Option (Queue T) :=
  if q.mtx = none then some ({ q with mtx := some t }.setThread t (.testing call)) else none

/-- One test of the loop, with the `wait` in its body. -/
def test (q : Queue T) (t : T) (call : Call) : Queue T :=
  if call.Blocked q.que then { q with mtx := none }.setThread t (.waiting call)
  else q.setThread t (.changing call)

/-- The next step of a thread in its call. -/
def advance (q : Queue T) (t : T) : Option (Queue T) :=
  match q.threads t with
  | .outside | .waiting _ => none
  | .entering call | .woken call => q.lock t call
  | .testing call => some (q.test t call)
  | .changing call => some ((q.change call).setThread t .notifying)
  | .notifying => some (q.notify_all.setThread t .leaving)
  | .leaving => some ({ q with mtx := none }.setThread t .outside)

inductive Action (T : Type*) where
  /-- This thread calls `put` or `get`. -/
  | call (t : T) (call : Call)
  /-- This thread goes on. -/
  | advance (t : T)
  /-- This thread wakes up for no reason. -/
  | spurious (t : T)
  deriving DecidableEq, Repr

def step (q : Queue T) : Action T → Option (Queue T)
  | .call t call => if q.threads t = .outside then some (q.setThread t (.entering call)) else none
  | .advance t => q.advance t
  | .spurious t =>
    match q.threads t with
    | .waiting call => some (q.setThread t (.woken call))
    | _ => none

end Queue

/-- What holds in every state. A thread that sleeps is blocked, or `notify_all` is the next step of
the thread that has the mutex. -/
structure Inv {T : Type*} (q : Queue T) : Prop where
  order : q.gets ++ q.que = q.puts
  size : q.que.length ≤ 1
  sound : q.fault = false
  owner : ∀ t, (q.threads t).Inside ↔ q.mtx = some t
  passed : ∀ t call, q.threads t = .changing call → ¬ call.Blocked q.que
  asleep : ∀ t call, q.threads t = .waiting call →
    call.Blocked q.que ∨ ∃ t', q.threads t' = .notifying

namespace Inv

variable {T : Type*} {q : Queue T}

theorem start : Inv (Queue.start : Queue T) where
  order := rfl
  size := Nat.zero_le 1
  sound := rfl
  owner _ := ⟨False.elim, fun h => nomatch h⟩
  passed _ _ h := nomatch h
  asleep _ _ h := nomatch h

/-- **Mutual exclusion**: two threads are never in their critical sections at once. -/
theorem unique {t t' : T} (h : Inv q) (ht : (q.threads t).Inside) (ht' : (q.threads t').Inside) :
    t' = t :=
  Option.some.inj (((h.owner t').mp ht').symm.trans ((h.owner t).mp ht))

/-- A thread in its critical section has the mutex. -/
theorem mtx_eq {t : T} {thread : Thread} (h : Inv q) (ht : q.threads t = thread)
    (hinside : thread.Inside) : q.mtx = some t :=
  (h.owner t).mp (ht ▸ hinside)

/-- `put` finds the queue empty, and `get` finds one element in it. -/
theorem que_of_changing {t : T} (h : Inv q) {call : Call} (ht : q.threads t = .changing call) :
    (∃ val, call = .put val ∧ q.que = []) ∨ ∃ val, call = .get ∧ q.que = [val] := by
  have hpassed := h.passed t call ht
  cases call with
  | put val => exact .inl ⟨val, rfl, Decidable.not_not.mp hpassed⟩
  | get =>
    obtain ⟨val, rest, hque⟩ := List.exists_cons_of_ne_nil hpassed
    have hsize := h.size
    rw [hque, List.length_cons] at hsize
    have hrest : rest = [] := List.length_eq_zero_iff.mp (by omega)
    exact .inr ⟨val, rfl, hrest ▸ hque⟩

/-- The values keep their order through a change, and `front` is called on an element. -/
theorem changed {t : T} {call : Call} (h : Inv q) (ht : q.threads t = .changing call) :
    (q.change call).gets ++ (q.change call).que = (q.change call).puts ∧
      (q.change call).que.length ≤ 1 ∧ (q.change call).fault = false := by
  obtain ⟨val, rfl, hque⟩ | ⟨val, rfl, hque⟩ := h.que_of_changing ht
  · refine ⟨?_, ?_, h.sound⟩
    · simp only [Queue.change, ← List.append_assoc, h.order]
    · simp [Queue.change, hque]
  · refine ⟨?_, ?_, ?_⟩
    · simp [Queue.change, hque, ← h.order]
    · simp [Queue.change, hque]
    · simpa [Queue.change, hque] using h.sound

variable [DecidableEq T]

/-- A step of one thread that leaves the queue as it is. What it does with the mutex goes with where
the thread stands afterwards, and it sleeps and passes the loop as its condition says. -/
theorem setThread {t : T} {thread : Thread} {m : Option T} (h : Inv q)
    (hinside : thread.Inside ↔ m = some t)
    (hothers : ∀ t', t' ≠ t → (m = some t' ↔ q.mtx = some t'))
    (hnot : q.threads t ≠ .notifying)
    (hpassed : ∀ call, thread = .changing call → ¬ call.Blocked q.que)
    (hasleep : ∀ call, thread = .waiting call → call.Blocked q.que) :
    Inv ({ q with mtx := m }.setThread t thread) := by
  refine ⟨h.order, h.size, h.sound, ?_, ?_, ?_⟩
  · refine (forall_update_iff q.threads fun t' thread => thread.Inside ↔ m = some t').mpr ?_
    exact ⟨hinside, fun t' ht => (h.owner t').trans (hothers t' ht).symm⟩
  · refine (forall_update_iff q.threads fun _ thread =>
      ∀ call, thread = .changing call → ¬ call.Blocked q.que).mpr ?_
    exact ⟨hpassed, fun t' _ => h.passed t'⟩
  · refine (forall_update_iff q.threads fun _ thread' => ∀ call, thread' = .waiting call →
      call.Blocked q.que ∨ ∃ u, update q.threads t thread u = .notifying).mpr ?_
    refine ⟨fun call hcall => .inl (hasleep call hcall), fun t' _ call ht' => ?_⟩
    refine (h.asleep t' call ht').imp_right fun ⟨u, hu⟩ => ⟨u, ?_⟩
    have hut : u ≠ t := by
      rintro rfl
      exact hnot hu
    exact (update_of_ne hut thread q.threads).trans hu

theorem lock {t : T} {call : Call} {q' : Queue T} (h : Inv q) (hnot : q.threads t ≠ .notifying)
    (hs : q.lock t call = some q') : Inv q' := by
  simp only [Queue.lock] at hs
  split at hs
  · rename_i hmtx
    cases hs
    refine h.setThread ⟨fun _ => rfl, fun _ => trivial⟩ (fun t' ht' => ?_) hnot ?_ ?_
    · simp [hmtx, Ne.symm ht']
    · exact fun _ hne => nomatch hne
    · exact fun _ hne => nomatch hne
  · cases hs

theorem test {t : T} {call : Call} (h : Inv q) (ht : q.threads t = .testing call) :
    Inv (q.test t call) := by
  have hnot : q.threads t ≠ .notifying := by
    rw [ht]
    exact Thread.noConfusion
  have hmtx := h.mtx_eq ht trivial
  simp only [Queue.test]
  split
  · rename_i hblocked
    refine h.setThread ⟨False.elim, fun hne => nomatch hne⟩ (fun t' ht' => ?_) hnot ?_ ?_
    · simp [hmtx, Ne.symm ht']
    · exact fun _ hne => nomatch hne
    · rintro _ ⟨⟩
      exact hblocked
  · rename_i hblocked
    refine h.setThread (m := q.mtx) ⟨fun _ => hmtx, fun _ => trivial⟩ (fun _ _ => Iff.rfl)
      hnot ?_ ?_
    · rintro _ ⟨⟩
      exact hblocked
    · exact fun _ hne => nomatch hne

/-- The change of the queue: only this thread is in its critical section, and it notifies next. -/
theorem change {t : T} {call : Call} (h : Inv q) (ht : q.threads t = .changing call) :
    Inv ((q.change call).setThread t .notifying) := by
  obtain ⟨horder, hsize, hsound⟩ := h.changed ht
  have hinside : (q.threads t).Inside := ht ▸ trivial
  refine ⟨horder, hsize, hsound, ?_, ?_, fun _ _ _ => .inr ⟨t, update_self t _ _⟩⟩
  · refine (forall_update_iff (q.change call).threads fun t' thread =>
      thread.Inside ↔ (q.change call).mtx = some t').mpr ?_
    rw [Queue.change_threads, Queue.change_mtx]
    exact ⟨⟨fun _ => h.mtx_eq ht trivial, fun _ => trivial⟩, fun t' _ => h.owner t'⟩
  · refine (forall_update_iff (q.change call).threads fun _ thread =>
      ∀ call', thread = .changing call' → ¬ call'.Blocked (q.change call).que).mpr ?_
    rw [Queue.change_threads]
    refine ⟨fun _ hne => (nomatch hne), fun t' hne call' ht' => ?_⟩
    exact absurd (h.unique hinside (ht' ▸ trivial)) hne

/-- Behind `notify_all` nobody sleeps. -/
theorem notify_all {t : T} (h : Inv q) (ht : q.threads t = .notifying) :
    Inv (q.notify_all.setThread t .leaving) := by
  refine ⟨h.order, h.size, h.sound, ?_, ?_, ?_⟩
  · refine (forall_update_iff q.notify_all.threads fun t' thread =>
      thread.Inside ↔ q.mtx = some t').mpr ?_
    refine ⟨⟨fun _ => h.mtx_eq ht trivial, fun _ => trivial⟩, fun t' _ => ?_⟩
    rw [← h.owner t']
    obtain ⟨call, hwaiting, hwoken⟩ | ⟨_, hsame⟩ := q.notify_all_threads t'
    · rw [hwaiting, hwoken]
      exact Iff.rfl
    · rw [hsame]
  · refine (forall_update_iff q.notify_all.threads fun _ thread =>
      ∀ call, thread = .changing call → ¬ call.Blocked q.que).mpr ?_
    refine ⟨fun _ hne => (nomatch hne), fun t' _ call ht' => ?_⟩
    obtain ⟨_, _, hwoken⟩ | ⟨_, hsame⟩ := q.notify_all_threads t'
    · rw [hwoken] at ht'
      cases ht'
    · exact h.passed t' call (hsame ▸ ht')
  · refine (forall_update_iff q.notify_all.threads fun _ thread => ∀ call,
      thread = .waiting call → call.Blocked q.que ∨
        ∃ u, update q.notify_all.threads t .leaving u = .notifying).mpr ?_
    refine ⟨fun _ hne => (nomatch hne), fun t' _ call ht' => ?_⟩
    obtain ⟨_, _, hwoken⟩ | ⟨hne, hsame⟩ := q.notify_all_threads t'
    · rw [hwoken] at ht'
      cases ht'
    · exact absurd (hsame ▸ ht') (hne call)

/-- A step of a thread outside of its critical section, without the mutex before and afterwards. -/
theorem outside {t : T} {thread thread' : Thread} (h : Inv q) (ht : q.threads t = thread')
    (hbefore : ¬ thread'.Inside) (hafter : ¬ thread.Inside)
    (hasleep : ∀ call, thread ≠ .waiting call) : Inv (q.setThread t thread) := by
  have hmtx : q.mtx ≠ some t := fun hmtx => hbefore (ht ▸ (h.owner t).mpr hmtx)
  refine h.setThread (m := q.mtx) (iff_of_false hafter hmtx) (fun _ _ => Iff.rfl) ?_ ?_ ?_
  · rintro hnot
    exact hmtx (h.mtx_eq hnot trivial)
  · rintro _ rfl
    exact absurd trivial hafter
  · exact fun call heq => absurd heq (hasleep call)

/-- The end of a call, with the mutex given back. -/
theorem leave {t : T} (h : Inv q) (ht : q.threads t = .leaving) :
    Inv ({ q with mtx := none }.setThread t .outside) := by
  have hmtx := h.mtx_eq ht trivial
  refine h.setThread ⟨False.elim, fun hne => nomatch hne⟩ (fun t' ht' => ?_) ?_ ?_ ?_
  · simp [hmtx, Ne.symm ht']
  · rw [ht]
    exact Thread.noConfusion
  · exact fun _ hne => nomatch hne
  · exact fun _ hne => nomatch hne

theorem advance {t : T} {q' : Queue T} (h : Inv q) (hs : q.advance t = some q') : Inv q' := by
  simp only [Queue.advance] at hs
  split at hs
  · cases hs
  · cases hs
  · rename_i call ht
    exact h.lock (by rw [ht]; exact Thread.noConfusion) hs
  · rename_i call ht
    exact h.lock (by rw [ht]; exact Thread.noConfusion) hs
  · rename_i call ht
    cases hs
    exact h.test ht
  · rename_i call ht
    cases hs
    exact h.change ht
  · rename_i ht
    cases hs
    exact h.notify_all ht
  · rename_i ht
    cases hs
    exact h.leave ht

/-- **Step lemma.** -/
theorem step {a : Queue.Action T} {q' : Queue T} (h : Inv q) (hs : q.step a = some q') :
    Inv q' := by
  cases a with
  | call t call =>
    simp only [Queue.step] at hs
    split at hs
    · rename_i ht
      cases hs
      exact h.outside ht id id fun _ hne => nomatch hne
    · cases hs
  | advance t => exact h.advance hs
  | spurious t =>
    simp only [Queue.step] at hs
    split at hs
    · rename_i call ht
      cases hs
      exact h.outside ht id id fun _ hne => nomatch hne
    · cases hs

end Inv

variable {T : Type*} [DecidableEq T]

/-- **The queue of one element works** for any number of threads: in every state it holds one
element at most, what `get` has taken is a prefix of what was put, `front` was never called on an
empty queue, and when no thread is between its change of the queue and `notify_all`, no `put`
sleeps while the queue is empty and no `get` while it is not. -/
theorem single_slot (q : Queue T) (hq : Reachable Queue.step Queue.start q) :
    q.que.length ≤ 1 ∧ q.gets <+: q.puts ∧ q.fault = false ∧
      ((∀ t, q.threads t ≠ .notifying) →
        (q.que = [] → ∀ t val, q.threads t ≠ .waiting (.put val)) ∧
        (q.que ≠ [] → ∀ t, q.threads t ≠ .waiting .get)) := by
  have h : Inv q := reachable_invariant (fun _ _ _ => Inv.step) Inv.start hq
  refine ⟨h.size, ?_, h.sound, fun hnone => ?_⟩
  · rw [← h.order]
    exact List.prefix_append _ _
  · have hblocked (t : T) (call : Call) (ht : q.threads t = .waiting call) :
        call.Blocked q.que := by
      refine (h.asleep t call ht).resolve_right ?_
      rintro ⟨t', ht'⟩
      exact hnone t' ht'
    exact ⟨fun hque t val ht => hblocked t _ ht hque, fun hque t ht => hque (hblocked t _ ht)⟩

/-- One thread puts 1, another one sleeps in its `put`, and the first takes the element again. -/
def takenBack : List (Queue.Action Bool) :=
  [.call true (.put 1), .advance true, .advance true, .advance true, .advance true, .advance true,
    .call false (.put 2), .advance false, .advance false,
    .call true .get, .advance true, .advance true, .advance true]

theorem single_slot_takenBack :
    ∃ q, run Queue.step (Queue.start : Queue Bool) (takenBack ++ [.advance true]) = some q ∧
      q.threads false = .woken (.put 2) ∧ q.gets = [1] ∧ q.gets <+: q.puts ∧
      q.que.length ≤ 1 ∧ ∀ t val, q.threads t ≠ .waiting (.put val) := by
  refine ⟨_, rfl, rfl, rfl, ?_⟩
  have hreach : Reachable Queue.step (Queue.start : Queue Bool) _ :=
    ⟨takenBack ++ [.advance true], rfl⟩
  obtain ⟨hsize, horder, _, hasleep⟩ := single_slot _ hreach
  exact ⟨horder, hsize, (hasleep (by decide)).1 rfl⟩

/-- Before `notify_all` the queue is empty and a thread that puts an element sleeps. -/
theorem asleep_before_notify :
    ∃ q : Queue Bool, Reachable Queue.step Queue.start q ∧ q.que = [] ∧
      q.threads false = .waiting (.put 2) :=
  ⟨_, ⟨takenBack, rfl⟩, rfl, rfl⟩

end CppInOne.ThreadsTele
