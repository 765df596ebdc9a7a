import CppInOne.ThreadPool.Creation

/-!
# Workers that run while the pool is made

The steps of `thread_pool_create` interleaved with the steps of the workers it has already
started. The threads are created before `pthread_mutex_init` and `pthread_cond_init`, so only
the scheduler keeps a worker from using the two objects before they exist.

## Main definitions

- `Startup`, `Startup.step` — the rest of `thread_pool_create` and the workers
- `Safe` — a step that uses the objects only when they exist, and makes them only unused
- `Late` — a step that is not the first lock of a worker, or comes after the initialisation

## Main results

- `safe_iff_late` — the runs in which every step is safe
- `exists_early` — nothing but the scheduler keeps the first worker from being too early
-/

namespace CppInOne.ThreadPool
open Transition Function

/-- Where a worker is. -/
inductive Phase where
  | absent
  /-- before `pthread_mutex_lock` -/
  | ready
  /-- with the mutex -/
  | holding
  /-- asleep in `pthread_cond_wait` -/
  | waiting
  /-- awake in `pthread_cond_wait`, without the mutex -/
  | woken
  /-- in a task -/
  | running
  | exited
  deriving DecidableEq, Repr

/-- The next thing this worker does is a call on the mutex or the condition. -/
def Phase.calls : Phase → Bool
  | .ready | .holding | .woken => true
  | .absent | .waiting | .running | .exited => false

/-- This worker holds the mutex or is inside `pthread_cond_wait`. -/
def Phase.uses : Phase → Bool
  | .holding | .waiting | .woken => true
  | .absent | .ready | .running | .exited => false

structure Startup where
  /-- What `thread_pool_create` has still to do. -/
  pending : List Op
  /-- It returns the pool in the end. -/
  pool : Bool
  mutex_ready : Bool
  cond_ready : Bool
  /-- The worker that holds the mutex. -/
  holder : Option Nat
  workers : Nat → Phase
  count : Nat
  closed : Bool

/-- The start of `thread_pool_create`. -/
def starting (thrd_count queue_size : Int32) (c : Calls) : Startup where
  pending := (thread_pool_create thrd_count queue_size c).1
  pool := (thread_pool_create thrd_count queue_size c).2
  mutex_ready := false
  cond_ready := false
  holder := none
  workers _ := .absent
  count := 0
  closed := false

namespace Startup

/-- The next statement of `thread_pool_create`. -/
def perform (s : Startup) : Op → Startup
  | .pthread_create i => { s with workers := update s.workers i .ready }
  | .pthread_mutex_init => { s with mutex_ready := true }
  | .pthread_cond_init => { s with cond_ready := true }
  | _ => s

/-- The next step of a worker. An object that is not initialised is taken to work by chance. -/
def thread_worker (s : Startup) (i : Nat) : Option Startup :=
  match s.workers i with
  | .absent | .exited => none
  | .ready | .woken =>
    if s.holder = none then
      some { s with holder := some i, workers := update s.workers i .holding }
    else none
  | .holding =>
    if s.count = 0 ∧ s.closed = false then
      some { s with holder := none, workers := update s.workers i .waiting }
    else if s.closed = true then
      some { s with holder := none, workers := update s.workers i .exited }
    else
      some { s with holder := none, workers := update s.workers i .running, count := s.count - 1 }
  | .waiting => some { s with workers := update s.workers i .woken }
  | .running => some { s with workers := update s.workers i .ready }

inductive Action where
  | create
  | worker (i : Nat)
  /-- Another thread posts a task to the pool it got. -/
  | post
  /-- Another thread closes the pool. -/
  | destory
  deriving DecidableEq, Repr

/-- The pool has been returned, and the mutex is free. -/
def Open (s : Startup) : Prop := s.pending = [] ∧ s.pool = true ∧ s.holder = none

instance (s : Startup) : Decidable s.Open := inferInstanceAs (Decidable (_ ∧ _ ∧ _))

def step (s : Startup) : Action → Option Startup
  | .create =>
    match s.pending with
    | [] => none
    | op :: rest => some ({ s with pending := rest }.perform op)
  | .worker i => s.thread_worker i
  | .post => if s.Open then some { s with count := s.count + 1 } else none
  | .destory => if s.Open then some { s with closed := true } else none

end Startup

/-! ## Safe steps -/

def Op.initialises : Op → Bool
  | .pthread_mutex_init | .pthread_cond_init => true
  | _ => false

/-- Both objects exist. -/
def Startup.Ready (s : Startup) : Prop := s.mutex_ready = true ∧ s.cond_ready = true

instance (s : Startup) : Decidable s.Ready := inferInstanceAs (Decidable (_ ∧ _))

/-- A worker calls functions of the two objects only when both exist, and they are initialised
only while no worker uses them. -/
def Safe (s : Startup) : Startup.Action → Prop
  | .worker i => (s.workers i).calls = true → s.Ready
  | .create => ∀ op ∈ s.pending.head?, op.initialises = true → ∀ i, (s.workers i).uses = false
  | .post | .destory => True

/-- The first `pthread_mutex_lock` of a worker, and any later one outside a wait, comes after the
initialisation. -/
def Late (s : Startup) : Startup.Action → Prop
  | .worker i => s.workers i = .ready → s.Ready
  | .create | .post | .destory => True

instance (s : Startup) (a : Startup.Action) : Decidable (Late s a) :=
  match a with
  | .worker i => inferInstanceAs (Decidable (s.workers i = .ready → s.Ready))
  | .create | .post | .destory => .isTrue trivial

/-! ## The invariant -/

/-- While one of the objects is missing no worker has got beyond its first lock, and
`thread_pool_create` initialises nothing behind `pthread_cond_init`. -/
structure Startup.Inv (s : Startup) : Prop where
  early : ¬ s.Ready → ∀ i, s.workers i = .absent ∨ s.workers i = .ready
  last : s.cond_ready = true → ∀ op ∈ s.pending, op.initialises = false
  order : s.pending.Pairwise fun op later =>
    op = .pthread_cond_init → later.initialises = false

theorem createThreads_initialises (pthread_create : Nat → Int) (todo i : Nat) :
    ∀ op ∈ (createThreads pthread_create todo i).1, op.initialises = false := by
  induction todo generalizing i with
  | zero => exact fun op hop => absurd hop List.not_mem_nil
  | succ todo ih =>
    unfold createThreads
    split
    · simp [Op.initialises]
    · simpa [Op.initialises] using ih (i + 1)

/-- Nothing is initialised twice, and the condition comes last. -/
theorem create_order (thrd_count queue_size : Int32) (c : Calls) :
    (thread_pool_create thrd_count queue_size c).1.Pairwise fun op later =>
      op = .pthread_cond_init → later.initialises = false := by
  have hquiet : ∀ t : List Op, (∀ op ∈ t, op.initialises = false) →
      t.Pairwise fun op later => op = .pthread_cond_init → later.initialises = false := by
    intro t ht
    exact List.pairwise_of_forall_mem_list fun op _ later hlater _ => ht later hlater
  have hworkers := createThreads_initialises c.pthread_create thrd_count.toNatClampNeg 0
  have hbefore : ∀ op ∈ threadsAllocated ++
      (createThreads c.pthread_create thrd_count.toNatClampNeg 0).1, op.initialises = false := by
    intro op hop
    obtain hop | hop := List.mem_append.mp hop
    · exact (by decide : ∀ op ∈ threadsAllocated, op.initialises = false) op hop
    · exact hworkers op hop
  obtain ⟨_, h⟩ | ⟨_, ⟨_, h⟩ | ⟨_, _, h⟩ | ⟨_, _, _, h⟩ | ⟨_, _, _, h⟩⟩ :=
    create_cases thrd_count queue_size c
  all_goals rw [h]
  · exact List.Pairwise.nil
  · exact hquiet _ (by decide)
  · exact hquiet _ (by decide)
  · exact hquiet _ hbefore
  · refine List.pairwise_append.mpr ⟨hquiet _ hbefore, by decide, fun op hop later _ heq => ?_⟩
    have hop' := hbefore op hop
    rw [heq] at hop'
    cases hop'

theorem inv_starting (thrd_count queue_size : Int32) (c : Calls) :
    (starting thrd_count queue_size c).Inv where
  early _ _ := Or.inl rfl
  last h := nomatch h
  order := create_order thrd_count queue_size c

variable {s s' : Startup}

/-- A worker makes neither of the objects. -/
theorem Startup.thread_worker_frame {i : Nat} (hs : s.thread_worker i = some s') :
    s'.pending = s.pending ∧ s'.mutex_ready = s.mutex_ready ∧ s'.cond_ready = s.cond_ready := by
  unfold thread_worker at hs
  split at hs
  · cases hs
  · cases hs
  · obtain ⟨_, hs⟩ := Option.ite_none_right_eq_some.mp hs
    cases hs
    exact ⟨rfl, rfl, rfl⟩
  · obtain ⟨_, hs⟩ := Option.ite_none_right_eq_some.mp hs
    cases hs
    exact ⟨rfl, rfl, rfl⟩
  · split at hs
    · cases hs
      exact ⟨rfl, rfl, rfl⟩
    · split at hs
      · cases hs
        exact ⟨rfl, rfl, rfl⟩
      · cases hs
        exact ⟨rfl, rfl, rfl⟩
  · cases hs
    exact ⟨rfl, rfl, rfl⟩
  · cases hs
    exact ⟨rfl, rfl, rfl⟩

namespace Startup.Inv

/-- The two guards agree. -/
theorem safe_iff (h : s.Inv) (a : Startup.Action) : Safe s a ↔ Late s a := by
  cases a with
  | worker i =>
    refine ⟨fun hsafe hready => hsafe (by rw [hready]; rfl), fun hlate hcalls => ?_⟩
    · by_contra hmissing
      obtain habsent | hready := h.early hmissing i
      · rw [habsent] at hcalls
        cases hcalls
      · exact hmissing (hlate hready)
  | create =>
    refine iff_of_true (fun op hop hinit i => ?_) trivial
    have hmissing : ¬ s.Ready := by
      intro hready
      have hlast := h.last hready.2 op (List.mem_of_mem_head? hop)
      rw [hinit] at hlast
      cases hlast
    obtain hphase | hphase := h.early hmissing i
    · rw [hphase]
      rfl
    · rw [hphase]
      rfl
  | post => exact Iff.rfl
  | destory => exact Iff.rfl

/-- A step of the workers or of another thread, when both objects exist. -/
theorem of_ready (h : s.Inv) (hready : s'.Ready) (hpending : s'.pending = s.pending)
    (hcond : s'.cond_ready = s.cond_ready) : s'.Inv where
  early hmissing := absurd hready hmissing
  last hlast := by
    rw [hpending]
    exact h.last (hcond ▸ hlast)
  order := by
    rw [hpending]
    exact h.order

theorem create (h : s.Inv) {op : Op} {rest : List Op} (hpending : s.pending = op :: rest) :
    ({ s with pending := rest }.perform op).Inv := by
  have horder := h.order
  rw [hpending] at horder
  obtain ⟨hhead, hrest⟩ := List.pairwise_cons.mp horder
  have hlast : s.cond_ready = true → ∀ op ∈ rest, op.initialises = false := by
    intro hcond op' hop'
    exact h.last hcond op' (by rw [hpending]; exact List.mem_cons_of_mem op hop')
  cases op with
  | pthread_create i =>
    refine ⟨fun hmissing j => ?_, hlast, hrest⟩
    show update s.workers i .ready j = _ ∨ update s.workers i .ready j = _
    by_cases hj : j = i
    · subst hj
      exact Or.inr (update_self _ _ _)
    · rw [update_of_ne hj]
      exact h.early hmissing j
  | pthread_mutex_init =>
    exact ⟨fun hmissing => h.early fun hready => hmissing ⟨rfl, hready.2⟩, hlast, hrest⟩
  | pthread_cond_init =>
    refine ⟨fun hmissing => h.early fun hready => hmissing ⟨hready.1, rfl⟩, fun _ => ?_, hrest⟩
    exact fun op' hop' => hhead op' hop' rfl
  | _ => exact ⟨h.early, hlast, hrest⟩

theorem worker (h : s.Inv) {i : Nat} (hlate : Late s (.worker i))
    (hs : s.thread_worker i = some s') : s'.Inv := by
  have hready : s.Ready := by
    by_contra hmissing
    obtain habsent | hready := h.early hmissing i
    · simp [Startup.thread_worker, habsent] at hs
    · exact hmissing (hlate hready)
  obtain ⟨hpending, hmutex, hcond⟩ := Startup.thread_worker_frame hs
  refine h.of_ready ⟨?_, ?_⟩ hpending hcond
  · rw [hmutex]
    exact hready.1
  · rw [hcond]
    exact hready.2

theorem step (s : Startup) (a : Startup.Action) (s' : Startup) (h : s.Inv) (hlate : Late s a)
    (hs : s.step a = some s') : s'.Inv := by
  cases a with
  | create =>
    simp only [Startup.step] at hs
    split at hs
    · cases hs
    · next hpending =>
      obtain rfl := Option.some.inj hs
      exact h.create hpending
  | worker i => exact h.worker hlate hs
  | post =>
    obtain ⟨_, hs⟩ := Option.ite_none_right_eq_some.mp hs
    obtain rfl := Option.some.inj hs
    exact ⟨h.early, h.last, h.order⟩
  | destory =>
    obtain ⟨_, hs⟩ := Option.ite_none_right_eq_some.mp hs
    obtain rfl := Option.some.inj hs
    exact ⟨h.early, h.last, h.order⟩

end Startup.Inv

/-- **The workers use the mutex and the condition only when they exist, and the two objects are
made only while nobody uses them, in exactly the runs in which no worker starts to lock before
`pthread_cond_init`.** This holds for all arguments of `thread_pool_create` and whatever its
allocations and its calls of `pthread_create` return. -/
theorem safe_iff_late (thrd_count queue_size : Int32) (c : Calls) (as : List Startup.Action)
    (s : Startup) (hrun : run Startup.step (starting thrd_count queue_size c) as = some s) :
    Guarded Startup.step Safe (starting thrd_count queue_size c) as ↔
      Guarded Startup.step Late (starting thrd_count queue_size c) as :=
  guarded_congr (fun _ a _ h _ => h.safe_iff a) Startup.Inv.step
    (inv_starting thrd_count queue_size c) hrun

/-- Everything that `thread_pool_create` calls succeeds. -/
def allSucceed : Calls where
  pool := true
  queue := true
  threads := true
  pthread_create _ := 0
  pthread_mutex_lock := 0
  leftover := false

/-- The pool is made before its only worker runs, falls asleep, and then gets a task. -/
def orderly : List Startup.Action :=
  List.replicate 22 .create ++
    [.worker 0, .worker 0, .post, .worker 0, .worker 0, .worker 0, .worker 0]

theorem safe_iff_late_orderly :
    Guarded Startup.step Safe (starting 1 1 allSucceed) orderly :=
  (safe_iff_late 1 1 allSucceed orderly _ rfl).mpr (by decide)

/-! ## Workers that are too early -/

/-- Statements that start no thread and make no object. -/
theorem Startup.run_create (ops : List Op)
    (hops : ∀ op ∈ ops, op.starts = false ∧ op.initialises = false) (s : Startup) (rest : List Op)
    (hs : s.pending = ops ++ rest) :
    run Startup.step s (List.replicate ops.length .create) = some { s with pending := rest } := by
  induction ops generalizing s with
  | nil =>
    rw [List.nil_append] at hs
    rw [← hs]
    rfl
  | cons op ops ih =>
    have hperform : ({ s with pending := ops ++ rest } : Startup).perform op =
        { s with pending := ops ++ rest } := by
      obtain ⟨hstarts, hinit⟩ := hops op List.mem_cons_self
      cases op with
      | pthread_create i => cases hstarts
      | pthread_mutex_init => cases hinit
      | pthread_cond_init => cases hinit
      | _ => rfl
    have hstep : Startup.step s .create = some { s with pending := ops ++ rest } := by
      rw [Startup.step, hs]
      exact congrArg some hperform
    rw [List.length_cons, List.replicate_succ, run_cons, hstep]
    exact ih (fun op' hop' => hops op' (List.mem_cons_of_mem op hop')) _ rfl

/-- What leads to the first worker. -/
def untilWorker : List Op := threadsAllocated ++ [.read .threads]

/-- The first worker is created, and locks the mutex at once. -/
def earlyLock : List Startup.Action :=
  List.replicate untilWorker.length .create ++ [.create, .worker 0]

theorem createThreads_first {pthread_create : Nat → Int} {todo : Nat} (hpos : 0 < todo)
    (hcreate : pthread_create 0 = 0) :
    ∃ rest, (createThreads pthread_create todo 0).1 =
      [.read .threads, .pthread_create 0] ++ rest := by
  obtain ⟨k, rfl⟩ := Nat.exists_eq_add_of_lt hpos
  rw [Nat.zero_add, createThreads, if_neg (not_not.mpr hcreate)]
  exact ⟨_, rfl⟩

theorem create_first {thrd_count queue_size : Int32} {c : Calls}
    (hargs : 0 < thrd_count ∧ 0 < queue_size)
    (hmalloc : c.pool = true ∧ c.queue = true ∧ c.threads = true)
    (hcreate : c.pthread_create 0 = 0) :
    ∃ rest, (thread_pool_create thrd_count queue_size c).1 =
      untilWorker ++ .pthread_create 0 :: rest := by
  have hpos : 0 < thrd_count.toNatClampNeg := by
    have hlt := Int32.lt_iff_toInt_lt.mp hargs.1
    rw [Int32.toInt_zero] at hlt
    exact Int.lt_toNat.mpr hlt
  obtain ⟨rest, hrest⟩ := createThreads_first hpos hcreate
  obtain ⟨hearly, _⟩ | ⟨_, ⟨hqueue, _⟩ | ⟨_, hthreads, _⟩ | ⟨_, _, _, h⟩ | ⟨_, _, _, h⟩⟩ :=
    create_cases thrd_count queue_size c
  · exact absurd ⟨hargs.1, hargs.2, hmalloc.1⟩ hearly
  · rw [hmalloc.2.1] at hqueue
    cases hqueue
  · rw [hmalloc.2.2] at hthreads
    cases hthreads
  · refine ⟨rest, ?_⟩
    rw [h, hrest, untilWorker, List.append_assoc]
    rfl
  · refine ⟨rest ++ [.pthread_mutex_init, .pthread_cond_init], ?_⟩
    rw [h, hrest, untilWorker, List.append_assoc, List.append_assoc, List.append_assoc]
    rfl

/-- Whenever the first worker can be created it may be too early. -/
theorem exists_early {thrd_count queue_size : Int32} {c : Calls}
    (hargs : 0 < thrd_count ∧ 0 < queue_size)
    (hmalloc : c.pool = true ∧ c.queue = true ∧ c.threads = true)
    (hcreate : c.pthread_create 0 = 0) :
    (∃ s, run Startup.step (starting thrd_count queue_size c) earlyLock = some s) ∧
      ¬ Guarded Startup.step Safe (starting thrd_count queue_size c) earlyLock := by
  obtain ⟨rest, hpending⟩ := create_first hargs hmalloc hcreate
  let ready : Startup :=
    { starting thrd_count queue_size c with
      pending := rest
      workers := update (fun _ => .absent) 0 .ready }
  have hready : run Startup.step (starting thrd_count queue_size c)
      (List.replicate untilWorker.length .create ++ [.create]) = some ready := by
    rw [run_append, Startup.run_create untilWorker (by decide) _ _ hpending]
    rfl
  have hphase : ready.workers 0 = .ready := rfl
  have hsplit : earlyLock =
      (List.replicate untilWorker.length .create ++ [.create]) ++ [.worker 0] := by
    rw [earlyLock, List.append_assoc]
    rfl
  rw [hsplit]
  refine ⟨⟨{ ready with holder := some 0, workers := update ready.workers 0 .holding }, ?_⟩,
    not_guarded_concat hready fun hsafe => ?_⟩
  · rw [run_append, hready]
    show (ready.thread_worker 0).bind _ = _
    rw [Startup.thread_worker, hphase]
    rfl
  · have hmissing := (hsafe (by rw [hphase]; rfl)).1
    cases hmissing

/-- The only worker locks the mutex before `thread_pool_create` goes on. -/
theorem safe_fails :
    (run Startup.step (starting 1 1 allSucceed) earlyLock).isSome = true ∧
      ¬ Guarded Startup.step Safe (starting 1 1 allSucceed) earlyLock := by
  refine ⟨rfl, fun h => ?_⟩
  exact (exists_early (by decide) (by decide) rfl).2 h

end CppInOne.ThreadPool
