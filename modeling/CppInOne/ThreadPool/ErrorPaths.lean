import CppInOne.ThreadPool.Creation

/-!
# Calls that fail

`thread_pool_post` and `thread_pool_destory` with whatever the `pthread` calls inside them
return. A thread that has taken the mutex keeps it until a `pthread_mutex_unlock` of its own
succeeds.

## Main definitions

- `thread_pool_post`, `thread_pool_destory` — the whole functions
- `Atomic` — the mutex is given back, and an error changes nothing

## Main results

- `error_atomic_iff` — the calls that are atomic
-/

namespace CppInOne.ThreadPool
open Function

variable {n : Nat} {F A : Type*}

/-- The state in which a thread returns from a call. -/
structure Return (n : Nat) (F A : Type*) where
  /-- The pool; `none` when the pointer was `NULL` or the pool is freed. -/
  pool : Option (State n F A)
  /-- The thread holds `pool->mutex`. -/
  held : Bool
  result : Int

/-- What the calls inside `thread_pool_post` return, and the workers that the signal wakes up. -/
structure PostCalls (n : Nat) where
  pthread_mutex_lock : Int
  pthread_cond_signal : Int
  pthread_mutex_unlock : Int
  woken : List (Fin n)

/-- What the calls inside `thread_pool_destory` return, and what `thread_pool_free` finds after
`wait_all_done` and gets from its own `pthread_mutex_lock`. -/
structure DestoryCalls where
  pthread_mutex_lock : Int
  pthread_cond_broadcast : Int
  pthread_mutex_unlock : Int
  joined : Pointers
  free_lock : Int

/-! ## The functions of the source -/

/-- `task_queue` with a task behind the last one. -/
def TaskQueue.push (que : TaskQueue F A) (queue_size : UInt32) (task : Task F A) :
    TaskQueue F A where
  head := que.head
  tail := (que.tail + 1) % queue_size
  count := que.count + 1
  queue := update que.queue que.tail.toNat task

/-- `thread_pool_post` -/
def thread_pool_post (pool : Option (State n F A)) (func : Option F) (arg : A)
    (c : PostCalls n) : Return n F A :=
  match pool, func with
  | none, _ => ⟨none, false, -1⟩
  | some s, none => ⟨some s, false, -1⟩
  | some s, some func =>
    if c.pthread_mutex_lock ≠ 0 then ⟨some s, false, -2⟩
    else
      -- what the last `pthread_mutex_unlock` leaves
      let held : Bool := c.pthread_mutex_unlock ≠ 0
      if s.closed = 1 then ⟨some s, held, -3⟩
      else if s.queue_size.toUInt32 = s.task_queue.count then ⟨some s, held, -4⟩
      else
        let s := { s with task_queue := s.task_queue.push s.queue_size.toUInt32 ⟨func, arg⟩ }
        if c.pthread_cond_signal ≠ 0 then ⟨some s, held, -5⟩
        else ⟨some (s.wake c.woken), held, 0⟩

/-- `pthread_cond_broadcast` -/
def State.broadcast (s : State n F A) : State n F A :=
  { s with
    workers := fun i => match s.workers i with
      | .waiting => .woken
      | w => w }

/-- `thread_pool_destory`. The results of `wait_all_done` and `thread_pool_free` are ignored. -/
def thread_pool_destory (pool : Option (State n F A)) (c : DestoryCalls) : Return n F A :=
  match pool with
  | none => ⟨none, false, -1⟩
  | some s =>
    if c.pthread_mutex_lock ≠ 0 then ⟨some s, false, -2⟩
    else if s.closed = 1 then ⟨some s, true, -1⟩
    else
      let s := { s with closed := 1 }
      if c.pthread_cond_broadcast ≠ 0 then ⟨some s, true, -2⟩
      else if c.pthread_mutex_unlock ≠ 0 then ⟨some s.broadcast, true, -2⟩
      else
        let freed := thread_pool_free (some c.joined) c.free_lock
        ⟨if .free .pool ∈ freed.1 then none else some s.broadcast,
          .pthread_mutex_lock 0 ∈ freed.1, 0⟩

/-! ## Calls in which everything succeeds -/

/-- Without failures `thread_pool_post` is the function of the running pool. -/
theorem post_eq (s : State n F A) (func : Option F) (arg : A) (woken : List (Fin n)) :
    thread_pool_post (some s) func arg ⟨0, 0, 0, woken⟩ =
      ⟨some (s.thread_pool_post func arg woken).1, false,
        (s.thread_pool_post func arg woken).2⟩ := by
  cases func with
  | none => rfl
  | some func =>
    unfold thread_pool_post State.thread_pool_post
    simp only [ne_eq, not_true, if_false, decide_false]
    split
    · rfl
    · split
      · rfl
      · rfl

/-- Without failures `thread_pool_destory` closes the pool as the running pool does. -/
theorem destory_eq (s : State n F A) (hopen : s.closed ≠ 1) {c : DestoryCalls}
    (hlock : c.pthread_mutex_lock = 0) (hbroadcast : c.pthread_cond_broadcast = 0)
    (hunlock : c.pthread_mutex_unlock = 0) (hjoined : c.joined.started ≤ 0) :
    ∃ s', thread_pool_destory (some s) c = ⟨some s', false, 0⟩ ∧
      s.thread_pool_destory = { s' with joined := some 0 }.emit .closed := by
  refine ⟨{ s with closed := 1 }.broadcast, ?_, ?_⟩
  · simp [thread_pool_destory, hlock, hopen, hbroadcast, hunlock, thread_pool_free, hjoined]
  · rw [State.thread_pool_destory, if_neg hopen]
    rfl

/-! ## Atomic calls -/

/-- A call on `pool` has given the mutex back, and if it failed the tasks and the flag are what
they were. -/
structure Atomic (pool : Option (State n F A)) (r : Return n F A) : Prop where
  released : r.held = false
  unchanged : r.result ≠ 0 →
    r.pool.map (fun s => (s.task_queue, s.closed)) = pool.map fun s => (s.task_queue, s.closed)

/-- `thread_pool_post` does not take the mutex, or it gives it back and the signal for a task it
has put into the queue does not fail. -/
def PostFine (pool : Option (State n F A)) (func : Option F) (c : PostCalls n) : Prop :=
  ∀ s ∈ pool, func.isSome = true → c.pthread_mutex_lock = 0 → c.pthread_mutex_unlock = 0 ∧
    (s.closed = 1 ∨ s.queue_size.toUInt32 = s.task_queue.count ∨ c.pthread_cond_signal = 0)

/-- `thread_pool_destory` does not take the mutex, or the pool is open, broadcast and unlock
succeed, and `thread_pool_free` does not take the mutex again. -/
def DestoryFine (pool : Option (State n F A)) (c : DestoryCalls) : Prop :=
  ∀ s ∈ pool, c.pthread_mutex_lock = 0 → s.closed ≠ 1 ∧ c.pthread_cond_broadcast = 0 ∧
    c.pthread_mutex_unlock = 0 ∧
    (c.joined.started ≤ 0 ∨ c.joined.threads = false ∨ c.free_lock ≠ 0)

theorem TaskQueue.push_ne (que : TaskQueue F A) (queue_size : UInt32) (task : Task F A) :
    que.push queue_size task ≠ que := by
  intro heq
  have hcount : que.count + 1 = que.count := congrArg TaskQueue.count heq
  simp at hcount

theorem post_atomic_iff (pool : Option (State n F A)) (func : Option F) (arg : A)
    (c : PostCalls n) : Atomic pool (thread_pool_post pool func arg c) ↔ PostFine pool func c := by
  cases pool with
  | none => exact iff_of_true ⟨rfl, fun _ => rfl⟩ nofun
  | some s =>
    cases func with
    | none => exact iff_of_true ⟨rfl, fun _ => rfl⟩ nofun
    | some func =>
      simp only [PostFine, Option.mem_some_iff, forall_eq', Option.isSome_some, forall_const]
      by_cases hlock : c.pthread_mutex_lock = 0
      · by_cases hunlock : c.pthread_mutex_unlock = 0
        · simp only [thread_pool_post, hlock, hunlock, ne_eq, not_true, if_false, decide_false,
            forall_const, true_and]
          split
          · next hclosed => exact iff_of_true ⟨rfl, fun _ => rfl⟩ (Or.inl hclosed)
          · next hopen =>
            split
            · next hfull => exact iff_of_true ⟨rfl, fun _ => rfl⟩ (Or.inr (Or.inl hfull))
            · next hroom =>
              split
              · next hsignal =>
                -- the task stays in the queue
                refine iff_of_false (fun h => ?_) fun h => ?_
                · have hsame := Option.some.inj (h.unchanged (show (-5 : Int) ≠ 0 by decide))
                  exact TaskQueue.push_ne _ _ _ (Prod.mk.inj hsame).1
                · obtain h | h | h := h
                  · exact hopen h
                  · exact hroom h
                  · exact hsignal h
              · next hsignal =>
                exact iff_of_true ⟨rfl, nofun⟩ (Or.inr (Or.inr (not_not.mp hsignal)))
        · refine iff_of_false (fun h => ?_) fun h => hunlock (h hlock).1
          have hheld : (thread_pool_post (some s) (some func) arg c).held = true := by
            simp only [thread_pool_post, hlock, hunlock, ne_eq, not_true, if_false,
              not_false_eq_true, decide_true]
            repeat' split
            all_goals rfl
          rw [h.released] at hheld
          cases hheld
      · refine iff_of_true ?_ fun h => absurd h hlock
        simp only [thread_pool_post, ne_eq, hlock, not_false_eq_true, if_true]
        exact ⟨rfl, fun _ => rfl⟩

/-- Whether `thread_pool_free` takes the mutex. -/
theorem free_locks_iff (pool : Pointers) (lock : Int) :
    .pthread_mutex_lock 0 ∈ (thread_pool_free (some pool) lock).1 ↔
      0 < pool.started ∧ pool.threads = true ∧ lock = 0 := by
  simp only [thread_pool_free]
  split
  · next hstarted => exact iff_of_false (by simp) fun h => absurd h.1 (Int.not_lt.mpr hstarted)
  · next hstarted =>
    rw [Int.not_le] at hstarted
    cases pool.threads <;> cases pool.queue <;> simp [hstarted, eq_comm]

theorem destory_atomic_iff (pool : Option (State n F A)) (c : DestoryCalls) :
    Atomic pool (thread_pool_destory pool c) ↔ DestoryFine pool c := by
  cases pool with
  | none => exact iff_of_true ⟨rfl, fun _ => rfl⟩ nofun
  | some s =>
    simp only [DestoryFine, Option.mem_some_iff, forall_eq']
    by_cases hlock : c.pthread_mutex_lock = 0
    · simp only [thread_pool_destory, hlock, ne_eq, not_true, if_false, forall_const]
      split
      · next hclosed => exact iff_of_false (fun h => nomatch h.released) fun h => h.1 hclosed
      · next hopen =>
        split
        · next hbroadcast =>
          exact iff_of_false (fun h => nomatch h.released) fun h => hbroadcast h.2.1
        · next hbroadcast =>
          split
          · next hunlock =>
            exact iff_of_false (fun h => nomatch h.released) fun h => hunlock h.2.2.1
          · next hunlock =>
            rw [not_not] at hbroadcast hunlock
            have hfree :
                Op.pthread_mutex_lock 0 ∉ (thread_pool_free (some c.joined) c.free_lock).1 ↔
                  c.joined.started ≤ 0 ∨ c.joined.threads = false ∨ c.free_lock ≠ 0 := by
              rw [free_locks_iff, not_and_or, not_and_or, Int.not_lt, Bool.not_eq_true]
            rw [← hfree]
            refine ⟨fun h => ⟨hopen, hbroadcast, hunlock, ?_⟩, fun h => ⟨?_, nofun⟩⟩
            · exact of_decide_eq_false h.released
            · exact decide_eq_false h.2.2.2
    · refine iff_of_true ?_ fun h => absurd h hlock
      simp only [thread_pool_destory, ne_eq, hlock, not_false_eq_true, if_true]
      exact ⟨rfl, fun _ => rfl⟩

/-- **The calls that are atomic.** A call of `thread_pool_post` or `thread_pool_destory` gives the
mutex back and leaves the tasks and the flag alone when it fails, if and only if it does not
run into a failing unlock, a failing signal behind an accepted task, a pool that is already
closed, a failing broadcast, or a `thread_pool_free` that takes the mutex again. -/
theorem error_atomic_iff (pool : Option (State n F A)) :
    (∀ func arg (c : PostCalls n),
      Atomic pool (thread_pool_post pool func arg c) ↔ PostFine pool func c) ∧
    ∀ c : DestoryCalls, Atomic pool (thread_pool_destory pool c) ↔ DestoryFine pool c :=
  ⟨post_atomic_iff pool, destory_atomic_iff pool⟩

/-- A pool with one worker. -/
def openPool : State 1 Nat Nat := created 1 4 fun _ => ⟨0, 0⟩

/-- `thread_pool_post` refuses the task whose signal fails, which stays in the queue, and
`thread_pool_destory` returns from a closed pool with the mutex. -/
theorem error_not_atomic :
    (thread_pool_post (some openPool) (some 7) 1 ⟨0, 22, 0, []⟩).result = -5 ∧
    ((thread_pool_post (some openPool) (some 7) 1 ⟨0, 22, 0, []⟩).pool.map fun s =>
      s.task_queue.count) = some 1 ∧
    (thread_pool_destory (some openPool.thread_pool_destory)
      ⟨0, 0, 0, ⟨0, true, true⟩, 0⟩).result = -1 ∧
    (thread_pool_destory (some openPool.thread_pool_destory)
      ⟨0, 0, 0, ⟨0, true, true⟩, 0⟩).held = true ∧
    ¬ Atomic (some openPool.thread_pool_destory)
      (thread_pool_destory (some openPool.thread_pool_destory) ⟨0, 0, 0, ⟨0, true, true⟩, 0⟩) :=
  ⟨rfl, rfl, rfl, rfl, fun h => nomatch h.released⟩

end CppInOne.ThreadPool
