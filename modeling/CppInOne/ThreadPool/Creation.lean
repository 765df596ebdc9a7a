import CppInOne.ThreadPool.ThrdPool

/-!
# Making and releasing a pool

`thread_pool_create` and `thread_pool_free` statement by statement: the blocks they allocate
and free, the fields they assign and read, the threads they start. A call that fails after
its first allocation leaves everything behind. `thread_pool_free` does nothing while `started`
is 0, and a failing `pthread_create` does not even call it.

## Main definitions

- `thread_pool_create`, `thread_pool_free` — what they do, in order
- `Undone` — nothing is left of a call

## Main results

- `create_undone_iff` — when a failing `thread_pool_create` leaves nothing behind
-/

namespace CppInOne.ThreadPool
open Transition Trace

/-- The fields of `thread_pool_t` and of its `task_queue`. -/
inductive Field where
  | threads | head | tail | count | queue | closed | started | thrd_count | queue_size
  deriving DecidableEq, Repr

inductive Block where
  | pool | queue | threads
  deriving DecidableEq, Repr

inductive Op where
  /-- an allocation that succeeds -/
  | malloc (block : Block)
  | free (block : Block)
  | assign (field : Field)
  | read (field : Field)
  /-- This worker runs from now on. -/
  | pthread_create (worker : Nat)
  | pthread_mutex_init
  | pthread_cond_init
  | pthread_mutex_lock (result : Int)
  | pthread_mutex_destroy
  | pthread_cond_destroy
  deriving DecidableEq, Repr

/-! ## The functions of the source -/

/-- What `thread_pool_free` reads of a pool; a pointer is `true` when it is not `NULL`. -/
structure Pointers where
  started : Int
  threads : Bool
  queue : Bool

/-- `thread_pool_free`, with the result of its `pthread_mutex_lock`. -/
def thread_pool_free (pool : Option Pointers) (lock : Int) : List Op × Int :=
  match pool with
  | none => ([], -1)
  | some pool =>
    if pool.started ≤ 0 then ([.read .started], -1)
    else
      let threads :=
        if pool.threads then
          [.read .threads, .free .threads, .assign .threads, .pthread_mutex_lock lock,
            .pthread_mutex_destroy, .pthread_cond_destroy]
        else []
      let queue := if pool.queue then [.read .queue, .free .queue, .assign .queue] else []
      ([.read .started, .read .threads] ++ threads ++ [.read .queue] ++ queue ++ [.free .pool], 0)

/-- What the calls inside `thread_pool_create` return. An allocation is `true` when it succeeds,
and `leftover` is what `malloc` leaves in the field `threads`. -/
structure Calls where
  pool : Bool
  queue : Bool
  threads : Bool
  pthread_create : Nat → Int
  pthread_mutex_lock : Int
  leftover : Bool

/-- The loop that creates the workers from `i` on; `false` when it returns `NULL`. -/
def createThreads (pthread_create : Nat → Int) : Nat → Nat → List Op × Bool
  | 0, _ => ([], true)
  | todo + 1, i =>
    if pthread_create i ≠ 0 then ([.read .threads], false)
    else
      let rest := createThreads pthread_create todo (i + 1)
      ([.read .threads, .pthread_create i, .read .started, .assign .started, .read .thrd_count,
        .assign .thrd_count] ++ rest.1, rest.2)

/-- The statements between the first allocation and the second one. -/
def assignFields : List Op :=
  [.assign .started, .assign .closed, .assign .thrd_count, .assign .queue_size, .assign .count,
    .assign .tail, .assign .head]

/-- `thread_pool_create`; `false` when it returns `NULL`. -/
def thread_pool_create (thrd_count queue_size : Int32) (c : Calls) : List Op × Bool :=
  if thrd_count ≤ 0 ∨ queue_size ≤ 0 then ([], false)
  else if c.pool = false then ([], false)
  else
    let pool := .malloc .pool :: assignFields
    if c.queue = false then
      (pool ++ [.assign .queue, .read .queue] ++
        (thread_pool_free (some ⟨0, c.leftover, false⟩) c.pthread_mutex_lock).1, false)
    else
      let queue := pool ++ [.malloc .queue, .assign .queue, .read .queue]
      if c.threads = false then
        (queue ++ [.assign .threads, .read .threads] ++
          (thread_pool_free (some ⟨0, false, true⟩) c.pthread_mutex_lock).1, false)
      else
        let threads := queue ++ [.malloc .threads, .assign .threads, .read .threads]
        let workers := createThreads c.pthread_create thrd_count.toNatClampNeg 0
        if workers.2 = false then (threads ++ workers.1, false)
        else (threads ++ workers.1 ++ [.pthread_mutex_init, .pthread_cond_init], true)

/-! ## What a call leaves behind -/

def Op.starts : Op → Bool
  | .pthread_create _ => true
  | _ => false

/-- How many workers a call has started. -/
def workersStarted (t : List Op) : Nat := t.countP Op.starts

/-- No field is read before it was assigned. -/
def Assigned (pre : List Op) (op : Op) : Prop := ∀ f, op = .read f → .assign f ∈ pre

/-- What the workers do by themselves. -/
def Action.ofWorker {n : Nat} {F A : Type*} : Action n F A → Bool
  | .worker _ | .taskDone _ | .spurious _ => true
  | .post _ _ _ | .destory | .join => false

/-- The workers of a pool nobody else has a pointer to, after any steps of theirs. -/
def Abandoned {n : Nat} {F A : Type*} (queue_size : Int32) (queue₀ : Nat → Task F A)
    (s : State n F A) : Prop :=
  ∃ as, (∀ a ∈ as, a.ofWorker = true) ∧ run step (created n queue_size queue₀) as = some s

/-- Nothing is left of a call that did `t`, with its workers in the state `s`. -/
structure Undone {n : Nat} {F A : Type*} (t : List Op) (s : State n F A) : Prop where
  freed : ∀ b, .malloc b ∈ t → t.count (.free b) = 1
  assigned : Justified Assigned t
  stopped : ∀ i, s.workers i = .exited

variable {n : Nat} {F A : Type*}

/-! ## The workers that a call has started -/

/-- The pool is open and all its workers are still there. -/
structure Running (s : State n F A) : Prop where
  closed : s.closed = 0
  running : ∀ i, s.workers i ≠ .exited

theorem Running.setWorker {s : State n F A} (h : Running s) (i : Fin n) {w : Worker F A}
    (hw : w ≠ .exited) : Running (s.setWorker i w) := by
  refine ⟨h.closed, fun j => ?_⟩
  by_cases hj : j = i
  · subst hj
    rw [State.setWorker_self]
    exact hw
  · rw [State.setWorker_of_ne s hj]
    exact h.running j

theorem Running.thread_worker {s : State n F A} (h : Running s) (i : Fin n) :
    Running (s.thread_worker i) := by
  unfold State.thread_worker
  split
  · exact h.setWorker i nofun
  · split
    · next hclosed =>
      rw [h.closed] at hclosed
      exact absurd hclosed (by decide)
    · have hset := h.setWorker i (w := .running (s.task_queue.queue s.task_queue.head.toNat)) nofun
      exact ⟨hset.closed, hset.running⟩

theorem Running.step {s s' : State n F A} {a : Action n F A} (h : Running s)
    (ha : a.ofWorker = true) (hs : step s a = some s') : Running s' := by
  cases step_cases hs with
  | post => cases ha
  | destory => cases ha
  | join => cases ha
  | worker => exact h.thread_worker _
  | taskDone => exact h.setWorker _ nofun
  | spurious => exact h.setWorker _ nofun

/-- The workers of an abandoned pool never exit. -/
theorem Abandoned.running {queue_size : Int32} {queue₀ : Nat → Task F A} {s : State n F A}
    (h : Abandoned queue_size queue₀ s) : Running s := by
  obtain ⟨as, has, hrun⟩ := h
  have hstart : Running (created n queue_size queue₀) := ⟨rfl, fun _ => nofun⟩
  exact run_invariant (fun s a s' hI ha hs => hI.step ha hs) hstart
    (guarded_of_forall_mem (fun a ha _ => has a ha) _) hrun

/-! ## What the functions do -/

/-- With no worker started `thread_pool_free` frees nothing. -/
theorem thread_pool_free_zero (threads queue : Bool) (lock : Int) :
    thread_pool_free (some ⟨0, threads, queue⟩) lock = ([.read .started], -1) := rfl

theorem createThreads_snd (pthread_create : Nat → Int) (todo i : Nat) :
    (createThreads pthread_create todo i).2 = true ↔
      ∀ j, i ≤ j → j < i + todo → pthread_create j = 0 := by
  induction todo generalizing i with
  | zero =>
    refine iff_of_true rfl fun j hle hlt => ?_
    omega
  | succ todo ih =>
    by_cases hi : pthread_create i = 0
    · simp only [createThreads, hi, ne_eq, not_true, if_false, ih]
      refine ⟨fun h j hle hlt => ?_, fun h j hle hlt => h j (by omega) (by omega)⟩
      obtain rfl | hne := eq_or_ne j i
      · exact hi
      · exact h j (by omega) (by omega)
    · simp only [createThreads, ne_eq, hi, not_false_eq_true, if_true, Bool.false_eq_true,
        false_iff]
      exact fun h => hi (h i le_rfl (by omega))

theorem createThreads_not_free (pthread_create : Nat → Int) (todo i : Nat) (b : Block) :
    .free b ∉ (createThreads pthread_create todo i).1 := by
  induction todo generalizing i with
  | zero => exact List.not_mem_nil
  | succ todo ih =>
    unfold createThreads
    split
    · simp
    · simpa using ih (i + 1)

/-- What `thread_pool_create` has done when the array of the tasks is there. -/
def queueAllocated : List Op :=
  .malloc .pool :: assignFields ++ [.malloc .queue, .assign .queue, .read .queue]

/-- What it has done when the array of the threads is there, too. -/
def threadsAllocated : List Op :=
  queueAllocated ++ [.malloc .threads, .assign .threads, .read .threads]

/-- How far `thread_pool_create` gets. -/
theorem create_cases (thrd_count queue_size : Int32) (c : Calls) :
    let workers := createThreads c.pthread_create thrd_count.toNatClampNeg 0
    (¬ (0 < thrd_count ∧ 0 < queue_size ∧ c.pool = true) ∧
      thread_pool_create thrd_count queue_size c = ([], false)) ∨
    (0 < thrd_count ∧ 0 < queue_size ∧ c.pool = true) ∧
      ((c.queue = false ∧ thread_pool_create thrd_count queue_size c =
        (.malloc .pool :: assignFields ++ [.assign .queue, .read .queue, .read .started], false)) ∨
      (c.queue = true ∧ c.threads = false ∧ thread_pool_create thrd_count queue_size c =
        (queueAllocated ++ [.assign .threads, .read .threads, .read .started], false)) ∨
      (c.queue = true ∧ c.threads = true ∧ workers.2 = false ∧
        thread_pool_create thrd_count queue_size c = (threadsAllocated ++ workers.1, false)) ∨
      (c.queue = true ∧ c.threads = true ∧ workers.2 = true ∧
        thread_pool_create thrd_count queue_size c =
          (threadsAllocated ++ workers.1 ++ [.pthread_mutex_init, .pthread_cond_init], true))) := by
  intro workers
  by_cases hargs : thrd_count ≤ 0 ∨ queue_size ≤ 0
  · refine Or.inl ⟨fun h => ?_, if_pos hargs⟩
    obtain hle | hle := hargs
    · exact absurd hle (Int32.not_le.mpr h.1)
    · exact absurd hle (Int32.not_le.mpr h.2.1)
  · have hpos : 0 < thrd_count ∧ 0 < queue_size := by
      rw [not_or, Int32.not_le, Int32.not_le] at hargs
      exact hargs
    unfold thread_pool_create
    rw [if_neg hargs]
    cases hpool : c.pool with
    | false => exact Or.inl ⟨fun h => (by simp at h), if_pos rfl⟩
    | true =>
      refine Or.inr ⟨⟨hpos.1, hpos.2, rfl⟩, ?_⟩
      cases hqueue : c.queue with
      | false => exact Or.inl ⟨rfl, rfl⟩
      | true =>
        cases hthreads : c.threads with
        | false => exact Or.inr (Or.inl ⟨rfl, rfl, rfl⟩)
        | true =>
          cases hworkers : workers.2 with
          | false => exact Or.inr (Or.inr (Or.inl ⟨rfl, rfl, rfl, if_pos hworkers⟩))
          | true =>
            have hne : ¬ workers.2 = false := by simp [hworkers]
            exact Or.inr (Or.inr (Or.inr ⟨rfl, rfl, rfl, if_neg hne⟩))

/-- `thread_pool_create` never frees a block. -/
theorem create_not_free (thrd_count queue_size : Int32) (c : Calls) (b : Block) :
    .free b ∉ (thread_pool_create thrd_count queue_size c).1 := by
  have hworkers := createThreads_not_free c.pthread_create thrd_count.toNatClampNeg 0 b
  obtain ⟨_, h⟩ | ⟨_, ⟨_, h⟩ | ⟨_, _, h⟩ | ⟨_, _, _, h⟩ | ⟨_, _, _, h⟩⟩ :=
    create_cases thrd_count queue_size c
  all_goals rw [h]
  · exact List.not_mem_nil
  · simp [assignFields]
  · simp [queueAllocated, assignFields]
  · simpa [threadsAllocated, queueAllocated, assignFields] using hworkers
  · simpa [threadsAllocated, queueAllocated, assignFields] using hworkers

/-! ## Reads and assignments -/

/-- A section that reads only what was assigned before it. -/
theorem Assigned.append {t : List Op} (ht : Justified Assigned t) (ops : List Op)
    (hops : ∀ f, .read f ∈ ops → .assign f ∈ t) : Justified Assigned (t ++ ops) := by
  refine ht.append fun pre op post heq f hop => List.mem_append_left _ (hops f ?_)
  rw [heq, hop]
  simp

/-- The loop reads and assigns fields which are assigned before it. -/
theorem createThreads_assigned (pthread_create : Nat → Int) (todo i : Nat) {t : List Op}
    (ht : Justified Assigned t) (hthreads : .assign .threads ∈ t) (hstarted : .assign .started ∈ t)
    (hcount : .assign .thrd_count ∈ t) :
    Justified Assigned (t ++ (createThreads pthread_create todo i).1) := by
  induction todo generalizing i t with
  | zero => simpa [createThreads] using ht
  | succ todo ih =>
    unfold createThreads
    split
    · refine Assigned.append ht _ fun f hf => ?_
      simp only [List.mem_cons, Op.read.injEq, List.not_mem_nil, or_false] at hf
      rw [hf]
      exact hthreads
    · have hround : Justified Assigned (t ++ [.read .threads, .pthread_create i, .read .started,
          .assign .started, .read .thrd_count, .assign .thrd_count]) := by
        refine Assigned.append ht _ fun f hf => ?_
        simp only [List.mem_cons, Op.read.injEq, reduceCtorEq, List.not_mem_nil, false_or,
          or_false] at hf
        obtain rfl | rfl | rfl := hf
        · exact hthreads
        · exact hstarted
        · exact hcount
      have hrest := ih (i + 1) hround (by simp [hthreads]) (by simp) (by simp)
      simpa [List.append_assoc] using hrest

theorem queueAllocated_assigned : Justified Assigned queueAllocated := by
  have hassign : Justified Assigned
      (.malloc .pool :: assignFields ++ [.malloc .queue, .assign .queue]) := by
    refine justified_of_free fun op hop pre f hread => ?_
    rw [hread] at hop
    exact absurd hop (by cases f <;> decide)
  have hread := Assigned.append hassign [.read .queue] fun f hf => ?_
  · exact hread
  · have hf' : f = .queue := by simpa using hf
    rw [hf']
    decide

theorem threadsAllocated_assigned : Justified Assigned threadsAllocated := by
  have hassign := Assigned.append queueAllocated_assigned [.malloc .threads, .assign .threads]
    (fun f hf => by simp at hf)
  have hread := Assigned.append hassign [.read .threads] fun f hf => ?_
  · simpa [threadsAllocated, List.append_assoc] using hread
  · have hf' : f = .threads := by simpa using hf
    rw [hf']
    decide

/-- `thread_pool_create` assigns every field before it reads it. -/
theorem create_assigned (thrd_count queue_size : Int32) (c : Calls) :
    Justified Assigned (thread_pool_create thrd_count queue_size c).1 := by
  have hworkers := createThreads_assigned c.pthread_create thrd_count.toNatClampNeg 0
    threadsAllocated_assigned (by decide) (by decide) (by decide)
  obtain ⟨_, h⟩ | ⟨_, ⟨_, h⟩ | ⟨_, _, h⟩ | ⟨_, _, _, h⟩ | ⟨_, _, _, h⟩⟩ :=
    create_cases thrd_count queue_size c
  all_goals rw [h]
  · exact justified_nil
  · have hassign : Justified Assigned (.malloc .pool :: assignFields ++ [.assign .queue]) := by
      refine justified_of_free fun op hop pre f hread => ?_
      rw [hread] at hop
      exact absurd hop (by cases f <;> decide)
    have hread := Assigned.append hassign [.read .queue, .read .started] fun f hf => ?_
    · exact hread
    · simp only [List.mem_cons, Op.read.injEq, List.not_mem_nil, or_false] at hf
      obtain rfl | rfl := hf
      · decide
      · decide
  · have hassign := Assigned.append queueAllocated_assigned [.assign .threads]
      (fun f hf => by simp at hf)
    have hread := Assigned.append hassign [.read .threads, .read .started] fun f hf => ?_
    · simpa [List.append_assoc] using hread
    · simp only [List.mem_cons, Op.read.injEq, List.not_mem_nil, or_false] at hf
      obtain rfl | rfl := hf
      · decide
      · decide
  · exact hworkers
  · exact Assigned.append hworkers _ (fun f hf => by simp at hf)

/-! ## The condition -/

/-- The call fails after its first allocation has succeeded. -/
def FailsLate (thrd_count queue_size : Int32) (c : Calls) : Prop :=
  (0 < thrd_count ∧ 0 < queue_size ∧ c.pool = true) ∧
    (c.queue = false ∨ c.threads = false ∨
      ∃ i < thrd_count.toNatClampNeg, c.pthread_create i ≠ 0)

theorem createThreads_eq_false {thrd_count : Int32} {c : Calls} :
    (createThreads c.pthread_create thrd_count.toNatClampNeg 0).2 = false ↔
      ∃ i < thrd_count.toNatClampNeg, c.pthread_create i ≠ 0 := by
  rw [← Bool.not_eq_true, createThreads_snd]
  simp

/-- **A `thread_pool_create` that returns `NULL` leaves nothing behind if and only if its
arguments or its first allocation make it fail.** When it fails later it frees none of its
blocks, and the workers that it has started never exit. -/
theorem create_undone_iff (thrd_count queue_size : Int32) (c : Calls) (queue₀ : Nat → Task F A)
    (s : State (workersStarted (thread_pool_create thrd_count queue_size c).1) F A)
    (hs : Abandoned queue_size queue₀ s) :
    (((thread_pool_create thrd_count queue_size c).2 = false →
        Undone (thread_pool_create thrd_count queue_size c).1 s) ↔
      ¬ FailsLate thrd_count queue_size c) ∧
    (FailsLate thrd_count queue_size c →
      (∀ b, .free b ∉ (thread_pool_create thrd_count queue_size c).1) ∧
        ∀ i, s.workers i ≠ .exited) := by
  refine ⟨?_, fun _ => ⟨create_not_free thrd_count queue_size c, hs.running.running⟩⟩
  -- whoever has allocated the pool and fails leaves it behind: nothing is freed
  have hleak : .malloc .pool ∈ (thread_pool_create thrd_count queue_size c).1 →
      ¬ Undone (thread_pool_create thrd_count queue_size c).1 s := by
    intro hmalloc hundone
    have hcount := hundone.freed .pool hmalloc
    rw [List.count_eq_zero_of_not_mem (create_not_free thrd_count queue_size c .pool)] at hcount
    exact absurd hcount (by decide)
  obtain ⟨hearly, h⟩ | ⟨hpos, ⟨hqueue, h⟩ | ⟨hqueue, hthreads, h⟩ | ⟨_, _, hworkers, h⟩ |
    ⟨hqueue, hthreads, hworkers, h⟩⟩ := create_cases thrd_count queue_size c
  · -- it gives up before the first allocation
    refine iff_of_true (fun _ => ⟨fun b hb => ?_, ?_, fun i => ?_⟩) fun hlate => hearly hlate.1
    · rw [h] at hb
      exact absurd hb List.not_mem_nil
    · exact create_assigned thrd_count queue_size c
    · have hnone := i.isLt
      simp [h, workersStarted] at hnone
  · refine iff_of_false (fun hall => hleak ?_ (hall ?_)) (not_not.mpr ⟨hpos, Or.inl hqueue⟩)
    · rw [h]
      decide
    · rw [h]
  · refine iff_of_false (fun hall => hleak ?_ (hall ?_))
      (not_not.mpr ⟨hpos, Or.inr (Or.inl hthreads)⟩)
    · rw [h]
      decide
    · rw [h]
  · refine iff_of_false (fun hall => hleak ?_ (hall ?_))
      (not_not.mpr ⟨hpos, Or.inr (Or.inr (createThreads_eq_false.mp hworkers))⟩)
    · rw [h]
      exact List.mem_append_left _ (by decide)
    · rw [h]
  · -- the pool is made
    refine iff_of_true (fun hnull => ?_) fun hlate => ?_
    · rw [h] at hnull
      cases hnull
    · obtain hfail | hfail | hfail := hlate.2
      · rw [hqueue] at hfail
        cases hfail
      · rw [hthreads] at hfail
        cases hfail
      · rw [createThreads_eq_false.mpr hfail] at hworkers
        cases hworkers

/-- Every allocation succeeds, and the second `pthread_create` fails. -/
def secondFails : Calls where
  pool := true
  queue := true
  threads := true
  pthread_create i := if i = 1 then 11 else 0
  pthread_mutex_lock := 0
  leftover := false

/-- The only worker has found no task. -/
def loneWorker : State 1 Nat Nat :=
  (created 1 4 fun _ => ⟨0, 0⟩).setWorker (.last 0) .waiting

theorem loneWorker_abandoned : Abandoned 4 (fun _ => ⟨0, 0⟩) loneWorker :=
  ⟨[.worker (.last 0)], by decide, rfl⟩

theorem create_undone_iff_secondFails :
    FailsLate 3 4 secondFails ∧
      ¬ ((thread_pool_create 3 4 secondFails).2 = false →
        Undone (thread_pool_create 3 4 secondFails).1 loneWorker) ∧
      ∀ i, loneWorker.workers i ≠ .exited := by
  have hlate : FailsLate 3 4 secondFails := ⟨by decide, Or.inr (Or.inr ⟨1, by decide, by decide⟩)⟩
  obtain ⟨hiff, hleft⟩ := create_undone_iff 3 4 secondFails _ loneWorker loneWorker_abandoned
  exact ⟨hlate, fun hall => hiff.mp hall hlate, (hleft hlate).2⟩

/-- Of three workers the second one cannot be created: `NULL` is returned, the three blocks stay
allocated, and the first worker sleeps for ever. -/
theorem create_not_undone :
    (thread_pool_create 3 4 secondFails).2 = false ∧
      (∀ b, (thread_pool_create 3 4 secondFails).1.count (.malloc b) = 1 ∧
        (thread_pool_create 3 4 secondFails).1.count (.free b) = 0) ∧
      workersStarted (thread_pool_create 3 4 secondFails).1 = 1 ∧
      ¬ Undone (thread_pool_create 3 4 secondFails).1 loneWorker := by
  refine ⟨by decide, fun b => by cases b <;> decide, by decide, fun h => ?_⟩
  have hfreed := h.freed .pool (by decide)
  exact absurd hfreed (by decide)

end CppInOne.ThreadPool
