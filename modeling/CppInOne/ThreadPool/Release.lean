import Mathlib.Data.Fintype.Card
import CppInOne.ThreadPool.Creation
import CppInOne.ThreadPool.TaskOrder

/-!
# What `thread_pool_destory` releases

A running pool with the end of `thread_pool_destory`: the joins, which may fail, and
`thread_pool_free`. Every worker that exits decrements `started`, and `thread_pool_free` does
nothing unless `started` is positive. So either it frees nothing, or it frees the pool of a
worker that is still there.

## Main definitions

- `Shutdown`, `Shutdown.step` — the pool and the end of `thread_pool_destory`
- `Released` — every worker has exited, and the pool is freed behind the last access

## Main results

- `destory_never_releases` — no run ends like that
-/

namespace CppInOne.ThreadPool
open Transition Trace Function

variable {n : Nat} {F A : Type*}

inductive Happening (n : Nat) where
  /-- This worker accesses the pool. -/
  | access (i : Fin n)
  | op (op : Op)
  deriving DecidableEq, Repr

structure Shutdown (n : Nat) (F A : Type*) where
  pool : State n F A
  /-- What the `thread_pool_destory` that has closed the pool returns. -/
  returned : Option Int
  history : List (Happening n)

/-- A new pool. -/
def opened (n : Nat) (queue_size : Int32) (queue₀ : Nat → Task F A) : Shutdown n F A where
  pool := created n queue_size queue₀
  returned := none
  history := []

namespace Shutdown

inductive Action (n : Nat) (F A : Type*) where
  | pool (a : ThreadPool.Action n F A)
  /-- The next `pthread_join` fails, without waiting. -/
  | joinFails
  /-- `thread_pool_free`, with the result of its `pthread_mutex_lock`. -/
  | free (lock : Int)
  deriving DecidableEq, Repr

/-- The accesses of the workers in a step of the pool. -/
def accesses : ThreadPool.Action n F A → List (Happening n)
  | .worker i => [.access i]
  | .post _ _ _ | .destory | .join | .taskDone _ | .spurious _ => []

def step (s : Shutdown n F A) : Action n F A → Option (Shutdown n F A)
  | .pool a =>
    (ThreadPool.step s.pool a).map fun pool =>
      { s with pool := pool, history := s.history ++ accesses a }
  | .joinFails =>
    match s.pool.joined with
    | some k =>
      if k < n then some { s with pool := { s.pool with joined := some (k + 1) } } else none
    | none => none
  | .free lock =>
    if s.pool.joined = some n ∧ s.returned = none then
      some { s with
        returned := some 0
        history := s.history ++
          (thread_pool_free (some ⟨s.pool.started, true, true⟩) lock).1.map .op }
    else none

end Shutdown

/-- A worker accesses the pool only before the pool is freed. -/
def Unfreed (pre : List (Happening n)) : Happening n → Prop
  | .access _ => ∀ b, .op (.free b) ∉ pre
  | .op _ => True

structure Released (s : Shutdown n F A) : Prop where
  exited : ∀ i, s.pool.workers i = .exited
  freed : ∀ b, s.history.count (.op (.free b)) = 1
  last : Justified Unfreed s.history

/-! ## The workers that are left -/

def Worker.alive : Worker F A → Bool
  | .ready | .waiting | .woken | .running _ => true
  | .exited => false

theorem Worker.alive_eq_false {w : Worker F A} : w.alive = false ↔ w = .exited := by
  cases w <;> simp [alive]

/-- The workers that have not exited. -/
def State.alive (s : State n F A) : Finset (Fin n) :=
  Finset.univ.filter fun i => (s.workers i).alive = true

theorem State.mem_alive {s : State n F A} {i : Fin n} :
    i ∈ s.alive ↔ (s.workers i).alive = true := by
  simp [alive]

theorem State.alive_eq_empty {s : State n F A} :
    s.alive = ∅ ↔ ∀ i, s.workers i = .exited := by
  rw [Finset.eq_empty_iff_forall_notMem]
  refine forall_congr' fun i => ?_
  rw [State.mem_alive, Bool.not_eq_true, Worker.alive_eq_false]

/-- Steps that let no worker exit. -/
theorem State.alive_congr {s s' : State n F A}
    (h : ∀ i, (s'.workers i).alive = (s.workers i).alive) : s'.alive = s.alive := by
  ext i
  rw [State.mem_alive, State.mem_alive, h]

theorem State.alive_setWorker {s : State n F A} {i : Fin n} {w : Worker F A}
    (hold : (s.workers i).alive = true) (hw : w.alive = true) :
    (s.setWorker i w).alive = s.alive := by
  refine State.alive_congr fun j => ?_
  by_cases hj : j = i
  · subst hj
    rw [State.setWorker_self, hw, hold]
  · rw [State.setWorker_of_ne s hj]

theorem State.alive_exit (s : State n F A) (i : Fin n) :
    (s.setWorker i .exited).alive = s.alive.erase i := by
  ext j
  rw [State.mem_alive, Finset.mem_erase, State.mem_alive]
  by_cases hj : j = i
  · subst hj
    rw [State.setWorker_self]
    simp [Worker.alive]
  · rw [State.setWorker_of_ne s hj]
    simp [hj]

/-- A pass of the loop: the worker stays, or it finds the pool closed. -/
theorem State.thread_worker_alive {s : State n F A} {i : Fin n}
    (hi : (s.workers i).alive = true) :
    ((s.thread_worker i).alive = s.alive ∧ (s.thread_worker i).started = s.started) ∨
      ((s.thread_worker i).alive = s.alive.erase i ∧
        (s.thread_worker i).started = s.started - 1) := by
  unfold State.thread_worker
  split
  · exact Or.inl ⟨State.alive_setWorker hi rfl, rfl⟩
  · split
    · exact Or.inr ⟨State.alive_exit _ i, rfl⟩
    · let task := s.task_queue.queue s.task_queue.head.toNat
      exact Or.inl ⟨State.alive_setWorker (w := .running task) hi rfl, rfl⟩

theorem State.thread_pool_post_alive (s : State n F A) (func : Option F) (arg : A)
    {signalled : List (Fin n)} (hsignal : s.MaySignal signalled) :
    (s.thread_pool_post func arg signalled).1.alive = s.alive ∧
      (s.thread_pool_post func arg signalled).1.started = s.started := by
  unfold State.thread_pool_post
  split
  · exact ⟨rfl, rfl⟩
  · split
    · exact ⟨rfl, rfl⟩
    · split
      · exact ⟨rfl, rfl⟩
      · refine ⟨State.alive_congr fun i => ?_, rfl⟩
        show (if i ∈ signalled then Worker.woken else s.workers i).alive = (s.workers i).alive
        split
        · next hi =>
          have hasleep := hsignal.1 i hi
          cases hw : s.workers i with
          | exited =>
            rw [hw] at hasleep
            cases hasleep
          | _ => rfl
        · rfl

/-- A step in which no worker exits keeps the workers and `started`, and the other steps are
accesses of a worker. -/
theorem alive_cases {s s' : State n F A} {a : Action n F A} (hs : step s a = some s') :
    (s'.alive = s.alive ∧ s'.started = s.started) ∨
      ∃ i ∈ s.alive, a = .worker i ∧ s'.alive = s.alive.erase i ∧ s'.started = s.started - 1 := by
  cases step_cases hs with
  | post func arg hsignal => exact Or.inl (s.thread_pool_post_alive func arg hsignal)
  | destory =>
    refine Or.inl ?_
    unfold State.thread_pool_destory
    split
    · exact ⟨rfl, rfl⟩
    · refine ⟨State.alive_congr fun i => ?_, rfl⟩
      simp only [State.emit]
      cases s.workers i with
      | _ => rfl
  | join => exact Or.inl ⟨rfl, rfl⟩
  | @worker i hfree hi =>
    have halive : (s.workers i).alive = true := by
      obtain hi | hi := hi
      · rw [hi]
        rfl
      · rw [hi]
        rfl
    obtain hstays | hexits := State.thread_worker_alive halive
    · exact Or.inl hstays
    · exact Or.inr ⟨i, State.mem_alive.mpr halive, rfl, hexits⟩
  | taskDone hi =>
    refine Or.inl ⟨State.alive_setWorker ?_ rfl, rfl⟩
    rw [hi]
    rfl
  | spurious hi =>
    refine Or.inl ⟨State.alive_setWorker ?_ rfl, rfl⟩
    rw [hi]
    rfl

/-! ## The invariants -/

/-- No block has been freed so far. -/
def Intact (t : List (Happening n)) : Prop := ∀ b, .op (.free b) ∉ t

/-- `started` counts the workers that are left, nothing is freed before `thread_pool_free`, and
behind a free there is a worker left or has been an access. -/
structure Shutdown.Inv (s : Shutdown n F A) : Prop where
  counted : s.pool.started = (s.pool.alive.card : Int)
  before : s.returned = none → Intact s.history
  left : Intact s.history ∨ s.pool.alive ≠ ∅ ∨ ¬ Justified Unfreed s.history

theorem inv_opened (n : Nat) (queue_size : Int32) (queue₀ : Nat → Task F A) :
    (opened n queue_size queue₀).Inv := by
  have hall : (opened n queue_size queue₀).pool.alive = Finset.univ := by
    ext i
    simp [State.mem_alive, opened, created, Worker.alive]
  refine ⟨?_, fun _ b => List.not_mem_nil, Or.inl fun b => List.not_mem_nil⟩
  rw [hall, Finset.card_univ, Fintype.card_fin]
  rfl

theorem intact_accesses {t : List (Happening n)} (h : Intact t) (a : ThreadPool.Action n F A) :
    Intact (t ++ Shutdown.accesses a) := by
  intro b hb
  obtain hb | hb := List.mem_append.mp hb
  · exact h b hb
  · cases a <;> simp [Shutdown.accesses] at hb

/-- With no worker left `thread_pool_free` frees nothing. -/
theorem intact_free {t : List (Happening n)} (h : Intact t) (lock : Int) :
    Intact (t ++ (thread_pool_free (some ⟨0, true, true⟩) lock).1.map .op) := by
  intro b hb
  obtain hb | hb := List.mem_append.mp hb
  · exact h b hb
  · rw [thread_pool_free_zero] at hb
    simp at hb

namespace Shutdown.Inv

variable {s : Shutdown n F A}

theorem pool (h : s.Inv) {a : ThreadPool.Action n F A} {pool : State n F A}
    (hs : ThreadPool.step s.pool a = some pool) :
    ({ s with pool := pool, history := s.history ++ accesses a } : Shutdown n F A).Inv := by
  refine ⟨?_, fun hnone => intact_accesses (h.before hnone) a, ?_⟩
  · obtain ⟨halive, hstarted⟩ | ⟨i, hi, _, halive, hstarted⟩ := alive_cases hs
    · show pool.started = (pool.alive.card : Int)
      rw [hstarted, halive, h.counted]
    · show pool.started = (pool.alive.card : Int)
      have hpos := Finset.card_pos.mpr ⟨i, hi⟩
      rw [hstarted, halive, h.counted, Finset.card_erase_of_mem hi]
      omega
  · by_cases hintact : Intact s.history
    · exact Or.inl (intact_accesses hintact a)
    · refine Or.inr ?_
      obtain hleft | hleft := h.left.resolve_left hintact
      · obtain ⟨halive, _⟩ | ⟨i, _, rfl, _⟩ := alive_cases hs
        · left
          show pool.alive ≠ ∅
          rw [halive]
          exact hleft
        · -- this worker accesses the pool that has been freed
          exact Or.inr fun hlast => hintact (hlast s.history (.access i) [] rfl)
      · exact Or.inr fun hlast => hleft hlast.left

theorem free (h : s.Inv) (hnone : s.returned = none) (lock : Int) :
    ({ s with
      returned := some 0
      history := s.history ++
        (thread_pool_free (some ⟨s.pool.started, true, true⟩) lock).1.map .op } :
      Shutdown n F A).Inv := by
  refine ⟨h.counted, nofun, ?_⟩
  by_cases hempty : s.pool.alive = ∅
  · left
    have hzero : s.pool.started = 0 := by
      rw [h.counted, hempty]
      rfl
    rw [hzero]
    exact intact_free (h.before hnone) lock
  · exact Or.inr (Or.inl hempty)

end Shutdown.Inv

theorem Shutdown.Inv.step (s : Shutdown n F A) (a : Shutdown.Action n F A) (s' : Shutdown n F A)
    (h : s.Inv) (hs : s.step a = some s') : s'.Inv := by
  cases a with
  | pool a =>
    obtain ⟨pool, hpool, rfl⟩ := Option.map_eq_some_iff.mp hs
    exact h.pool hpool
  | joinFails =>
    simp only [Shutdown.step] at hs
    split at hs
    · obtain ⟨_, hs⟩ := Option.ite_none_right_eq_some.mp hs
      cases hs
      exact ⟨h.counted, h.before, h.left⟩
    · cases hs
  | free lock =>
    obtain ⟨⟨_, hnone⟩, hs⟩ := Option.ite_none_right_eq_some.mp hs
    cases hs
    exact h.free hnone lock

/-! ## Joins that succeed -/

/-- The workers that have been joined have exited, and when `thread_pool_destory` has returned
they all have, and nothing is freed. -/
structure Shutdown.Joined (s : Shutdown n F A) : Prop where
  inv : s.Inv
  joined : ∀ k ∈ s.pool.joined, ∀ i : Fin n, i.val < k → s.pool.workers i = .exited
  done : s.returned = some 0 → s.pool.alive = ∅ ∧ Intact s.history

/-- A worker that has exited stays so. -/
theorem exited_step {s s' : State n F A} {a : Action n F A} (hs : step s a = some s') {i : Fin n}
    (hi : s.workers i = .exited) : s'.workers i = .exited := by
  have hdead : i ∉ s.alive := by
    rw [State.mem_alive, hi]
    exact Bool.false_ne_true
  have hdead' : i ∉ s'.alive := by
    obtain ⟨halive, _⟩ | ⟨_, _, _, halive, _⟩ := alive_cases hs
    · rwa [halive]
    · rw [halive]
      exact fun hmem => hdead (Finset.mem_of_mem_erase hmem)
  rw [State.mem_alive, Bool.not_eq_true] at hdead'
  exact Worker.alive_eq_false.mp hdead'

theorem State.thread_worker_joined (s : State n F A) (i : Fin n) :
    (s.thread_worker i).joined = s.joined := by
  unfold State.thread_worker
  split
  · rfl
  · split
    · rfl
    · rfl

theorem State.thread_pool_post_joined (s : State n F A) (func : Option F) (arg : A)
    (signalled : List (Fin n)) : (s.thread_pool_post func arg signalled).1.joined = s.joined := by
  unfold State.thread_pool_post
  split
  · rfl
  · split
    · rfl
    · split
      · rfl
      · rfl

theorem joined_step {s s' : State n F A} {a : Action n F A} (hs : step s a = some s')
    (h : ∀ k ∈ s.joined, ∀ i : Fin n, i.val < k → s.workers i = .exited) :
    ∀ k ∈ s'.joined, ∀ i : Fin n, i.val < k → s'.workers i = .exited := by
  intro k hk i hi
  have hold : s'.joined = s.joined → s'.workers i = .exited := by
    intro heq
    exact exited_step hs (h k (heq ▸ hk) i hi)
  cases step_cases hs with
  | post func arg hsignal => exact hold (s.thread_pool_post_joined func arg _)
  | destory =>
    by_cases hclosed : s.closed = 1
    · exact hold (by rw [State.thread_pool_destory, if_pos hclosed])
    · rw [State.thread_pool_destory, if_neg hclosed] at hk
      cases hk
      exact absurd hi (Nat.not_lt_zero _)
  | @join k' hjoined hk' hexited =>
    cases hk
    obtain hlt | rfl := Nat.lt_succ_iff_lt_or_eq.mp hi
    · exact h k' hjoined i hlt
    · exact hexited
  | worker => exact hold (s.thread_worker_joined _)
  | taskDone => exact hold rfl
  | spurious => exact hold rfl

theorem Shutdown.Joined.step (s : Shutdown n F A) (a : Shutdown.Action n F A)
    (s' : Shutdown n F A) (h : s.Joined) (ha : a ≠ .joinFails) (hs : s.step a = some s') :
    s'.Joined := by
  have hinv := Shutdown.Inv.step s a s' h.inv hs
  cases a with
  | pool a =>
    obtain ⟨pool, hpool, rfl⟩ := Option.map_eq_some_iff.mp hs
    refine ⟨hinv, joined_step hpool h.joined, fun hreturned => ?_⟩
    obtain ⟨hempty, hintact⟩ := h.done hreturned
    refine ⟨State.alive_eq_empty.mpr fun i => ?_, intact_accesses hintact a⟩
    exact exited_step hpool (State.alive_eq_empty.mp hempty i)
  | joinFails => exact absurd rfl ha
  | free lock =>
    obtain ⟨⟨hjoined, hnone⟩, hs⟩ := Option.ite_none_right_eq_some.mp hs
    cases hs
    have hempty : s.pool.alive = ∅ :=
      State.alive_eq_empty.mpr fun i => h.joined n hjoined i i.isLt
    have hzero : s.pool.started = 0 := by
      rw [h.inv.counted, hempty]
      rfl
    refine ⟨hinv, h.joined, fun _ => ⟨hempty, ?_⟩⟩
    show Intact (_ ++ (thread_pool_free (some ⟨s.pool.started, true, true⟩) lock).1.map .op)
    rw [hzero]
    exact intact_free (h.inv.before hnone) lock

/-- **`thread_pool_destory` never releases the pool.** Whenever it has returned 0, in whatever run
of posts and workers, the pool has not been freed behind its last use. When no join fails, every
worker has exited and nothing at all is freed. -/
theorem destory_never_releases (n : Nat) (queue_size : Int32) (queue₀ : Nat → Task F A)
    (as : List (Shutdown.Action n F A)) (s : Shutdown n F A)
    (hrun : run Shutdown.step (opened n queue_size queue₀) as = some s)
    (hreturned : s.returned = some 0) :
    ¬ Released s ∧ (.joinFails ∉ as → (∀ i, s.pool.workers i = .exited) ∧ Intact s.history) := by
  have hinv : s.Inv :=
    reachable_invariant Shutdown.Inv.step (inv_opened n queue_size queue₀) ⟨as, hrun⟩
  refine ⟨fun h => ?_, fun hjoins => ?_⟩
  · obtain hintact | hleft | hlate := hinv.left
    · have hnever : s.history.count (.op (.free .pool)) = 0 :=
        List.count_eq_zero_of_not_mem (hintact .pool)
      rw [h.freed .pool] at hnever
      cases hnever
    · exact hleft (State.alive_eq_empty.mpr h.exited)
    · exact hlate h.last
  · have hstart : (opened n queue_size queue₀).Joined :=
      ⟨inv_opened n queue_size queue₀, nofun, nofun⟩
    have hnever : ∀ a ∈ as, a ≠ .joinFails := by
      rintro a ha rfl
      exact hjoins ha
    obtain ⟨hempty, hintact⟩ := (run_invariant (G := fun _ a => a ≠ .joinFails)
      Shutdown.Joined.step hstart (guarded_of_forall_mem (fun a ha _ => hnever a ha) _)
      hrun).done hreturned
    exact ⟨State.alive_eq_empty.mp hempty, hintact⟩

/-- The only worker runs a task, exits because the pool is closed, and is joined. -/
def closedAndJoined : List (Shutdown.Action 1 Nat Nat) :=
  [.pool (.worker onlyWorker), .pool (.post (some 7) 1 [onlyWorker]), .pool (.worker onlyWorker),
    .pool .destory, .pool (.taskDone onlyWorker), .pool (.worker onlyWorker), .pool .join, .free 0]

theorem destory_never_releases_closedAndJoined :
    ∃ s, run Shutdown.step (opened 1 1 fun _ => ⟨0, 0⟩) closedAndJoined = some s ∧
      s.returned = some 0 ∧ ¬ Released s ∧ Intact s.history := by
  obtain ⟨hnot, hjoins⟩ :=
    destory_never_releases 1 1 (fun _ => Task.mk 0 0) closedAndJoined _ rfl rfl
  exact ⟨_, rfl, rfl, hnot, (hjoins (by decide)).2⟩

/-- The call returns 0, the worker has exited, and the pool is not freed. -/
theorem destory_leaks :
    ∃ s, run Shutdown.step (opened 1 1 fun _ => ⟨0, 0⟩) closedAndJoined = some s ∧
      s.returned = some 0 ∧ s.pool.workers onlyWorker = .exited ∧
      (∀ b, s.history.count (.op (.free b)) = 0) ∧ ¬ Released s := by
  refine ⟨_, rfl, rfl, rfl, fun b => by cases b <;> rfl, fun h => ?_⟩
  exact absurd (h.freed .pool) (by decide)

end CppInOne.ThreadPool
