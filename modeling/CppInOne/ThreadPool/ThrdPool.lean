import CppInOne.Lib.RingBuffer
import CppInOne.Lib.Trace
import CppInOne.Lib.Transition

/-!
# The thread pool of `thrd_pool.c`

A pool that `thread_pool_create` has made, its workers, and any number of threads that call
`thread_pool_post` and `thread_pool_destory`. A step is a section run with the mutex, the end
of a task, or a wakeup. The mutex and the condition variable work as documented: no call of
theirs fails, a signal wakes at least one of the threads that wait, and threads may wake up
for no reason. `thread_pool_free`, which runs after the last join, is not a step here.

## Main definitions

- `State`, `step` — the pool, its workers and what they do
- `Step` — a step with its guard, for case analyses
- `thread_worker`, `thread_pool_post`, `thread_pool_destory` — the sections of the source
-/

namespace CppInOne.ThreadPool
open Function

/-- `task_t`, with `F` for the function pointers other than `NULL`. -/
structure Task (F A : Type*) where
  func : F
  arg : A
  deriving DecidableEq, Repr

/-- `task_queue_t` -/
structure TaskQueue (F A : Type*) where
  head : UInt32
  tail : UInt32
  count : UInt32
  /-- The array, whatever it holds outside the tasks that wait. -/
  queue : Nat → Task F A

inductive Worker (F A : Type*) where
  /-- before `pthread_mutex_lock` -/
  | ready
  /-- asleep in `pthread_cond_wait` -/
  | waiting
  /-- awake in `pthread_cond_wait`, without the mutex -/
  | woken
  | running (task : Task F A)
  | exited
  deriving DecidableEq, Repr

def Worker.asleep {F A : Type*} : Worker F A → Bool
  | .waiting => true
  | .ready | .woken | .running _ | .exited => false

inductive Event (n : Nat) (F A : Type*) where
  /-- `thread_pool_post` returns. -/
  | posted (func : Option F) (arg : A) (result : Int)
  | taken (worker : Fin n) (task : Task F A)
  | closed
  deriving DecidableEq, Repr

/-- `thread_pool_t` with `n` threads. -/
structure State (n : Nat) (F A : Type*) where
  task_queue : TaskQueue F A
  closed : Int
  started : Int
  queue_size : Int32
  workers : Fin n → Worker F A
  /-- A thread has returned without giving the mutex back. -/
  locked : Bool
  /-- How many threads `wait_all_done` has joined, once it runs. -/
  joined : Option Nat
  trace : List (Event n F A)

variable {n : Nat} {F A : Type*}

/-- What `thread_pool_create` returns; `queue₀` is the array as `malloc` leaves it. -/
def created (n : Nat) (queue_size : Int32) (queue₀ : Nat → Task F A) : State n F A where
  task_queue := { head := 0, tail := 0, count := 0, queue := queue₀ }
  closed := 0
  started := n
  queue_size := queue_size
  workers _ := .ready
  locked := false
  joined := none
  trace := []

namespace State

def emit (s : State n F A) (e : Event n F A) : State n F A := { s with trace := s.trace ++ [e] }

def setWorker (s : State n F A) (i : Fin n) (w : Worker F A) : State n F A :=
  { s with workers := update s.workers i w }

@[simp] theorem setWorker_self (s : State n F A) (i : Fin n) (w : Worker F A) :
    (s.setWorker i w).workers i = w := by
  simp [setWorker]

theorem setWorker_of_ne (s : State n F A) {i j : Fin n} (h : j ≠ i) (w : Worker F A) :
    (s.setWorker i w).workers j = s.workers j := by
  simp [setWorker, h]

/-- The workers in `signalled` wake up. -/
def wake (s : State n F A) (signalled : List (Fin n)) : State n F A :=
  { s with workers := fun i => if i ∈ signalled then .woken else s.workers i }

/-- One `pthread_cond_signal` may wake up these workers. -/
def MaySignal (s : State n F A) (signalled : List (Fin n)) : Prop :=
  (∀ i ∈ signalled, (s.workers i).asleep = true) ∧
    (signalled = [] → ∀ i, (s.workers i).asleep = false)

instance (s : State n F A) (signalled : List (Fin n)) : Decidable (s.MaySignal signalled) :=
  inferInstanceAs (Decidable (_ ∧ _))

/-! ## The functions of the source -/

/-- A pass of the loop from the test of its condition on, with the mutex, until the mutex is
given back. -/
def thread_worker (s : State n F A) (i : Fin n) : State n F A :=
  if s.task_queue.count = 0 ∧ s.closed = 0 then s.setWorker i .waiting
  else if s.closed = 1 then { s with started := s.started - 1 }.setWorker i .exited
  else
    let que := s.task_queue
    let task := que.queue que.head.toNat
    { s with
      task_queue :=
        { que with
          head := (que.head + 1) % s.queue_size.toUInt32
          count := que.count - 1 } }.setWorker i (.running task) |>.emit (.taken i task)

/-- `thread_pool_post`, with the workers that its signal wakes up. -/
def thread_pool_post (s : State n F A) (func : Option F) (arg : A) (signalled : List (Fin n)) :
    State n F A × Int :=
  match func with
  | none => (s, -1)
  | some func =>
    if s.closed = 1 then (s, -3)
    else if s.queue_size.toUInt32 = s.task_queue.count then (s, -4)
    else
      let que := s.task_queue
      ({ s with
        task_queue :=
          { que with
            queue := update que.queue que.tail.toNat ⟨func, arg⟩
            tail := (que.tail + 1) % s.queue_size.toUInt32
            count := que.count + 1 } }.wake signalled, 0)

/-- `thread_pool_destory` until it unlocks the mutex or returns. A second call returns with the
mutex. -/
def thread_pool_destory (s : State n F A) : State n F A :=
  if s.closed = 1 then { s with locked := true }
  else
    { s with
      closed := 1
      workers := fun i => match s.workers i with
        | .waiting => .woken
        | w => w
      joined := some 0 }.emit .closed

end State

/-! ## Steps -/

inductive Action (n : Nat) (F A : Type*) where
  | post (func : Option F) (arg : A) (signalled : List (Fin n))
  | destory
  /-- `wait_all_done` joins the next thread. -/
  | join
  | worker (i : Fin n)
  /-- The task of this worker returns. -/
  | taskDone (i : Fin n)
  /-- This worker wakes up for no reason. -/
  | spurious (i : Fin n)
  deriving DecidableEq, Repr

def step (s : State n F A) : Action n F A → Option (State n F A)
  | .post func arg signalled =>
    if (s.locked = true ∧ func.isSome = true) ∨ ¬ s.MaySignal signalled then none
    else
      let r := s.thread_pool_post func arg signalled
      some (r.1.emit (.posted func arg r.2))
  | .destory => if s.locked = true then none else some s.thread_pool_destory
  | .join =>
    match s.joined with
    | some k =>
      if h : k < n then
        match s.workers ⟨k, h⟩ with
        | .exited => some { s with joined := some (k + 1) }
        | _ => none
      else none
    | none => none
  | .worker i =>
    if s.locked = true then none
    else
      match s.workers i with
      | .ready | .woken => some (s.thread_worker i)
      | _ => none
  | .taskDone i =>
    match s.workers i with
    | .running _ => some (s.setWorker i .ready)
    | _ => none
  | .spurious i =>
    match s.workers i with
    | .waiting => some (s.setWorker i .woken)
    | _ => none

/-- The steps with what is known of the state before them. -/
inductive Step (s : State n F A) : Action n F A → State n F A → Prop where
  | post (func : Option F) (arg : A) {signalled : List (Fin n)} (hsignal : s.MaySignal signalled) :
    Step s (.post func arg signalled) ((s.thread_pool_post func arg signalled).1.emit
      (.posted func arg (s.thread_pool_post func arg signalled).2))
  | destory (hfree : s.locked = false) : Step s .destory s.thread_pool_destory
  | join {k : Nat} (hjoined : s.joined = some k) (hk : k < n)
    (hexited : s.workers ⟨k, hk⟩ = .exited) : Step s .join { s with joined := some (k + 1) }
  | worker {i : Fin n} (hfree : s.locked = false)
    (hi : s.workers i = .ready ∨ s.workers i = .woken) : Step s (.worker i) (s.thread_worker i)
  | taskDone {i : Fin n} {task : Task F A} (hi : s.workers i = .running task) :
    Step s (.taskDone i) (s.setWorker i .ready)
  | spurious {i : Fin n} (hi : s.workers i = .waiting) : Step s (.spurious i) (s.setWorker i .woken)

theorem step_cases {s s' : State n F A} {a : Action n F A} (hs : step s a = some s') :
    Step s a s' := by
  cases a with
  | post func arg signalled =>
    simp only [step, Option.ite_none_left_eq_some, Option.some.injEq, not_or, not_not] at hs
    obtain ⟨⟨_, hsignal⟩, rfl⟩ := hs
    exact .post func arg hsignal
  -- the thread that owns the pool
  | destory =>
    simp only [step, Option.ite_none_left_eq_some, Option.some.injEq, Bool.not_eq_true] at hs
    obtain ⟨hfree, rfl⟩ := hs
    exact .destory hfree
  | join =>
    simp only [step] at hs
    split at hs
    · next k hjoined =>
      obtain ⟨hk, hs⟩ := Option.dite_none_right_eq_some.mp hs
      split at hs
      · next hexited =>
        cases hs
        exact .join hjoined hk hexited
      · cases hs
    · cases hs
  -- the workers
  | worker i =>
    simp only [step] at hs
    obtain ⟨hfree, hs⟩ := Option.ite_none_left_eq_some.mp hs
    rw [Bool.not_eq_true] at hfree
    split at hs
    · next hi =>
      cases hs
      exact .worker hfree (Or.inl hi)
    · next hi =>
      cases hs
      exact .worker hfree (Or.inr hi)
    · cases hs
  | taskDone i =>
    simp only [step] at hs
    split at hs
    · next hi =>
      cases hs
      exact .taskDone hi
    · cases hs
  | spurious i =>
    simp only [step] at hs
    split at hs
    · next hi =>
      cases hs
      exact .spurious hi
    · cases hs

end CppInOne.ThreadPool
