import Mathlib.Data.Fintype.Card
import CppInOne.ThreadPool.TaskOrder

/-!
# The program with the thread pool

`main.c` posts a task until the pool refuses one, waits for its threads, and would then destroy
the pool. The tasks count themselves in `done`, under a mutex of the program. `wait_all_done` joins
threads that only a closed pool lets go, so `main` waits for ever. The counters are `int`; what
they say is stated for less than `2 ^ 31` tasks.

## Main results

- `main_never_returns` — what the program counts and prints, and where it stays
-/

namespace CppInOne.ThreadPool
open Function Transition

/-- The functions that the program posts. -/
inductive Func where
  | do_task
  deriving DecidableEq, Repr

def NULL : UInt64 := 0

namespace Program

/-- Where `main` is. -/
inductive Pc where
  /-- before the next `thread_pool_post` -/
  | post
  /-- in the body of the loop -/
  | count
  /-- in `wait_all_done`, before the join of this thread -/
  | wait (i : Nat)
  | destory
  /-- in the `wait_all_done` of `thread_pool_destory` -/
  | join
  | returned
  deriving DecidableEq, Repr

inductive Line where
  | add (nums : Int32)
  | doing (done : Int32)
  | did (done : Int32)
  deriving DecidableEq, Repr

end Program

open Program in
structure Program (n : Nat) where
  pool : State n Func UInt64
  pc : Pc
  nums : Int32
  done : Int32
  /-- The task of this worker has counted itself. -/
  counted : Fin n → Bool
  output : List Line

namespace Program

variable {n : Nat}

/-- The pool has been created. -/
def start (n : Nat) (queue_size : Int32) (queue₀ : Nat → Task Func UInt64) : Program n where
  pool := created n queue_size queue₀
  pc := .post
  nums := 0
  done := 0
  counted _ := false
  output := []

/-! ## Steps -/

/-- `main` goes on; the workers are those that a signal of `thread_pool_post` wakes up. -/
def main (s : Program n) (signalled : List (Fin n)) : Option (Program n) :=
  match s.pc with
  | .post =>
    (ThreadPool.step s.pool (.post (some .do_task) NULL signalled)).map fun pool =>
      if (s.pool.thread_pool_post (some .do_task) NULL signalled).2 = 0 then
        { s with pool, pc := .count }
      else { s with pool, pc := .wait 0, output := s.output ++ [.add s.nums] }
  | .count => some { s with nums := s.nums + 1, pc := .post }
  | .wait i =>
    if h : i < n then
      match s.pool.workers ⟨i, h⟩ with
      | .exited => some { s with pc := .wait (i + 1) }
      | _ => none
    else some { s with pc := .destory, output := s.output ++ [.did s.done] }
  | .destory => (ThreadPool.step s.pool .destory).map fun pool => { s with pool, pc := .join }
  | .join =>
    if s.pool.joined = some n then some { s with pc := .returned }
    else (ThreadPool.step s.pool .join).map fun pool => { s with pool }
  | .returned => none

/-- What a task does between taking the mutex and giving it back. -/
def do_task (s : Program n) (i : Fin n) : Program n :=
  { s with
    done := s.done + 1
    counted := update s.counted i true
    output := s.output ++ [.doing (s.done + 1)] }

inductive Action (n : Nat) where
  | main (signalled : List (Fin n))
  | worker (i : Fin n)
  | spurious (i : Fin n)
  | do_task (i : Fin n)
  | taskDone (i : Fin n)
  deriving DecidableEq, Repr

def step (s : Program n) : Action n → Option (Program n)
  | .main signalled => s.main signalled
  | .worker i =>
    (ThreadPool.step s.pool (.worker i)).map fun pool =>
      { s with pool, counted := update s.counted i false }
  | .spurious i => (ThreadPool.step s.pool (.spurious i)).map fun pool => { s with pool }
  | .do_task i =>
    match s.pool.workers i with
    | .running _ => if s.counted i = true then none else some (s.do_task i)
    | _ => none
  | .taskDone i =>
    if s.counted i = true then
      (ThreadPool.step s.pool (.taskDone i)).map fun pool => { s with pool }
    else none

/-! ## What is counted -/

/-- The lines of the tasks. -/
def doing (output : List Line) : List Int32 :=
  output.filterMap fun
    | .doing done => some done
    | _ => none

@[simp] theorem doing_append (t t' : List Line) : doing (t ++ t') = doing t ++ doing t' :=
  List.filterMap_append

def Uncounted (w : Worker Func UInt64) (counted : Bool) : Prop :=
  match w with
  | .running _ => counted = false
  | .ready | .waiting | .woken | .exited => False

instance (w : Worker Func UInt64) (counted : Bool) : Decidable (Uncounted w counted) := by
  cases w <;> unfold Uncounted <;> infer_instance

/-- The workers that run a task that has not counted itself. -/
def pending (s : Program n) : Finset (Fin n) :=
  Finset.univ.filter fun i => Uncounted (s.pool.workers i) (s.counted i)

theorem mem_pending {s : Program n} {i : Fin n} :
    i ∈ s.pending ↔ Uncounted (s.pool.workers i) (s.counted i) := by
  simp [pending]

theorem pending_congr {s s' : Program n}
    (h : ∀ i, Uncounted (s'.pool.workers i) (s'.counted i) ↔
      Uncounted (s.pool.workers i) (s.counted i)) : s'.pending = s.pending := by
  ext i
  rw [mem_pending, mem_pending, h]

/-- One worker changes, and has no task that counts itself later. -/
theorem pending_erase {s s' : Program n} {i : Fin n}
    (hi : ¬ Uncounted (s'.pool.workers i) (s'.counted i))
    (hother : ∀ j ≠ i, s'.pool.workers j = s.pool.workers j ∧ s'.counted j = s.counted j) :
    s'.pending = s.pending.erase i := by
  ext j
  rw [Finset.mem_erase, mem_pending, mem_pending]
  by_cases hj : j = i
  · subst hj
    simp [hi]
  · rw [(hother j hj).1, (hother j hj).2]
    simp [hj]

/-- One worker takes a task. -/
theorem pending_insert {s s' : Program n} {i : Fin n}
    (hi : Uncounted (s'.pool.workers i) (s'.counted i))
    (hother : ∀ j ≠ i, s'.pool.workers j = s.pool.workers j ∧ s'.counted j = s.counted j) :
    s'.pending = insert i s.pending := by
  ext j
  rw [Finset.mem_insert, mem_pending, mem_pending]
  by_cases hj : j = i
  · subst hj
    simp [hi]
  · rw [(hother j hj).1, (hother j hj).2]
    simp [hj]

/-! ## The pool stays open -/

/-- The pool is not closed, and no worker has exited. -/
structure Open (p : State n Func UInt64) : Prop where
  closed : p.closed = 0
  running : ∀ i, p.workers i ≠ .exited

theorem Open.setWorker {p : State n Func UInt64} (h : Open p) (i : Fin n)
    {w : Worker Func UInt64} (hw : w ≠ .exited) : Open (p.setWorker i w) := by
  refine ⟨h.closed, fun j => ?_⟩
  by_cases hj : j = i
  · subst hj
    rwa [State.setWorker_self]
  · rw [State.setWorker_of_ne p hj]
    exact h.running j

/-- A pass of a worker's loop: it sleeps, or takes a task. -/
theorem Open.thread_worker {p : State n Func UInt64} (h : Open p) (i : Fin n) :
    p.thread_worker i = p.setWorker i .waiting ∨
      ∃ q task, p.thread_worker i = (q.setWorker i (.running task)).emit (.taken i task) ∧
        q.workers = p.workers ∧ q.trace = p.trace ∧ Open q := by
  have hclosed : p.closed ≠ 1 := by
    rw [h.closed]
    decide
  unfold State.thread_worker
  split
  · exact Or.inl rfl
  · exact Or.inr ⟨{ p with task_queue := _ }, _, rfl, rfl, rfl, h.closed, h.running⟩

/-- The pool is asked to take a task: it refuses, or takes it and wakes workers up. -/
theorem Open.post {p : State n Func UInt64} (h : Open p) {signalled : List (Fin n)}
    (hsignal : p.MaySignal signalled) :
    Open (p.thread_pool_post (some .do_task) NULL signalled).1 ∧
      (p.thread_pool_post (some .do_task) NULL signalled).1.trace = p.trace ∧
      ∀ i counted, Uncounted ((p.thread_pool_post (some .do_task) NULL signalled).1.workers i)
        counted ↔ Uncounted (p.workers i) counted := by
  unfold State.thread_pool_post
  dsimp only
  split
  · exact ⟨h, rfl, fun _ _ => Iff.rfl⟩
  · split
    · exact ⟨h, rfl, fun _ _ => Iff.rfl⟩
    · refine ⟨⟨h.closed, fun i => ?_⟩, rfl, fun i counted => ?_⟩
      · show (if i ∈ signalled then Worker.woken else p.workers i) ≠ .exited
        split
        · simp
        · exact h.running i
      · show Uncounted (if i ∈ signalled then Worker.woken else p.workers i) counted ↔ _
        split
        · next hi =>
          have hasleep := hsignal.1 i hi
          cases hw : p.workers i with
          | running task =>
            rw [hw] at hasleep
            cases hasleep
          | ready | waiting | woken | exited => exact Iff.rfl
        · exact Iff.rfl

/-! ## The invariant -/

structure Inv (size : Nat) (s : Program n) : Prop where
  pool : ThreadPool.Inv size s.pool
  opened : Open s.pool
  pc : s.pc = .post ∨ s.pc = .count ∨ s.pc = .wait 0
  accepted : ∃ posted, s.nums = .ofNat posted ∧
    (accepted s.pool.trace).length = posted + if s.pc = .count then 1 else 0
  taken : (taken s.pool.trace).length = (doing s.output).length + s.pending.card
  done : s.done = .ofNat (doing s.output).length
  output : doing s.output = (List.range (doing s.output).length).map fun k => .ofNat (k + 1)
  silent : ∀ done, .did done ∉ s.output

theorem inv_start (n : Nat) {queue_size : Int32} (hsize : 0 < queue_size)
    (queue₀ : Nat → Task Func UInt64) :
    Inv queue_size.toUInt32.toNat (start n queue_size queue₀) := by
  have hpending : (start n queue_size queue₀).pending = ∅ := by
    refine Finset.eq_empty_of_forall_notMem fun i hi => ?_
    exact mem_pending.mp hi
  refine ⟨inv_created n hsize queue₀, ⟨rfl, fun i => ?_⟩, Or.inl rfl, ⟨0, rfl, rfl⟩, ?_, rfl, rfl,
    ?_⟩
  · simp [start, created]
  · rw [hpending]
    rfl
  · simp [start]

namespace Inv

variable {size : Nat} {s s' : Program n}

theorem post (hn : 0 < n) (h : Inv size s) (hpc : s.pc = .post) {signalled : List (Fin n)}
    {pool : State n Func UInt64}
    (hpool : ThreadPool.step s.pool (.post (some .do_task) NULL signalled) = some pool) :
    Inv size (if (s.pool.thread_pool_post (some .do_task) NULL signalled).2 = 0 then
      { s with pool, pc := .count }
    else { s with pool, pc := .wait 0, output := s.output ++ [.add s.nums] }) := by
  have hinv : ThreadPool.Inv size pool := ThreadPool.Inv.step hn _ _ _ h.pool hpool
  obtain ⟨-, -, hsignal⟩ := step_cases hpool
  obtain ⟨hopen, htrace, huncounted⟩ := h.opened.post hsignal
  obtain ⟨posted, hnums, haccepted⟩ := h.accepted
  have htaken := h.taken
  rw [hpc, if_neg (by simp)] at haccepted
  split
  · next hzero =>
    refine ⟨hinv, ⟨hopen.closed, hopen.running⟩, Or.inr (Or.inl rfl), ⟨posted, hnums, ?_⟩, ?_,
      h.done, h.output, h.silent⟩
    · show (ThreadPool.accepted (State.trace _ ++ [_])).length = _
      rw [htrace, accepted_append, List.length_append, haccepted, hzero]
      rfl
    · rw [pending_congr (s := s) fun i => huncounted i (s.counted i)]
      show (ThreadPool.taken (State.trace _ ++ [_])).length = _
      rw [htrace, taken_append, List.length_append, htaken]
      rfl
  · next hne =>
    have hnothing : ThreadPool.accepted [Event.posted (n := n) (some Func.do_task) NULL
        (s.pool.thread_pool_post (some .do_task) NULL signalled).2] = [] := by
      simp only [ThreadPool.accepted, List.filterMap_cons, List.filterMap_nil]
      split <;> simp_all
    have hdoing : doing (s.output ++ [.add s.nums]) = doing s.output := by simp [doing]
    refine ⟨hinv, ⟨hopen.closed, hopen.running⟩, Or.inr (Or.inr rfl), ⟨posted, hnums, ?_⟩, ?_, ?_,
      ?_, ?_⟩
    · show (ThreadPool.accepted (State.trace _ ++ [_])).length = _
      rw [htrace, accepted_append, hnothing, List.append_nil, haccepted]
      rfl
    · rw [pending_congr (s := s) fun i => huncounted i (s.counted i), hdoing]
      show (ThreadPool.taken (State.trace _ ++ [_])).length = _
      rw [htrace, taken_append, List.length_append, htaken]
      rfl
    · rw [hdoing]
      exact h.done
    · rw [hdoing]
      exact h.output
    · simpa using h.silent

theorem main (hn : 0 < n) (h : Inv size s) {signalled : List (Fin n)}
    (hs : s.main signalled = some s') : Inv size s' := by
  unfold Program.main at hs
  split at hs
  · next hpc =>
    obtain ⟨pool, hpool, rfl⟩ := Option.map_eq_some_iff.mp hs
    exact h.post hn hpc hpool
  · next hpc =>
    cases hs
    obtain ⟨posted, hnums, haccepted⟩ := h.accepted
    refine ⟨h.pool, h.opened, Or.inl rfl, ⟨posted + 1, ?_, ?_⟩, h.taken, h.done, h.output, h.silent⟩
    · show s.nums + 1 = _
      rw [hnums, Int32.ofNat_add posted 1]
      rfl
    · rw [haccepted, hpc]
      rfl
  · next i hpc =>
    -- the first thread is still there
    obtain rfl : i = 0 := by
      obtain hp | hp | hp := h.pc <;> rw [hpc] at hp <;> cases hp
      rfl
    rw [dif_pos hn] at hs
    have hrunning := h.opened.running ⟨0, hn⟩
    split at hs
    · next hexited => exact absurd hexited hrunning
    · cases hs
  all_goals
    next hpc =>
    obtain hp | hp | hp := h.pc <;> rw [hpc] at hp <;> cases hp

theorem worker (hn : 0 < n) (h : Inv size s) {i : Fin n} {pool : State n Func UInt64}
    (hpool : ThreadPool.step s.pool (.worker i) = some pool) :
    Inv size { s with pool, counted := update s.counted i false } := by
  have hinv : ThreadPool.Inv size pool := ThreadPool.Inv.step hn _ _ _ h.pool hpool
  have hidle : i ∉ s.pending := by
    cases step_cases hpool with
    | worker hfree hi =>
      rw [mem_pending]
      obtain hi | hi := hi <;> rw [hi] <;> exact id
  obtain rfl : pool = s.pool.thread_worker i := by
    cases step_cases hpool
    rfl
  have htaken := h.taken
  obtain hsleeps | ⟨q, task, htakes, hworkers, htrace, hq⟩ := h.opened.thread_worker i
  · rw [hsleeps] at hinv ⊢
    refine ⟨hinv, h.opened.setWorker i (by simp), h.pc, h.accepted, ?_, h.done, h.output,
      h.silent⟩
    rw [pending_erase (s := s) (i := i), Finset.erase_eq_of_notMem hidle]
    · exact htaken
    · simp [Uncounted]
    · intro j hj
      exact ⟨State.setWorker_of_ne _ hj _, update_of_ne hj _ _⟩
  · rw [htakes] at hinv ⊢
    have hopen := hq.setWorker i (w := .running task) (by simp)
    obtain ⟨posted, hnums, haccepted⟩ := h.accepted
    refine ⟨hinv, ⟨hopen.closed, hopen.running⟩, h.pc, ⟨posted, hnums, ?_⟩, ?_, h.done, h.output,
      h.silent⟩
    · show (ThreadPool.accepted (q.trace ++ [_])).length = _
      rw [htrace, accepted_append, List.length_append, haccepted]
      rfl
    · rw [pending_insert (s := s) (i := i), Finset.card_insert_of_notMem hidle]
      · show (ThreadPool.taken (q.trace ++ [_])).length = _
        rw [htrace, taken_append, List.length_append, htaken]
        rfl
      · simp [Uncounted, State.emit]
      · intro j hj
        refine ⟨?_, update_of_ne hj _ _⟩
        rw [← hworkers]
        exact State.setWorker_of_ne _ hj _

/-- A worker that does not run a task any more, or does not run one yet. -/
theorem setWorker (hn : 0 < n) (h : Inv size s) {i : Fin n} {w : Worker Func UInt64}
    {a : ThreadPool.Action n Func UInt64}
    (hpool : ThreadPool.step s.pool a = some (s.pool.setWorker i w)) (hidle : i ∉ s.pending)
    (hw : w = .ready ∨ w = .woken) : Inv size { s with pool := s.pool.setWorker i w } := by
  have hinv := ThreadPool.Inv.step hn _ _ _ h.pool hpool
  refine ⟨hinv, h.opened.setWorker i ?_, h.pc, h.accepted, ?_, h.done, h.output, h.silent⟩
  · obtain rfl | rfl := hw <;> simp
  · rw [pending_erase (s := s) (i := i), Finset.erase_eq_of_notMem hidle]
    · exact h.taken
    · obtain rfl | rfl := hw <;> simp [Uncounted]
    · exact fun j hj => ⟨State.setWorker_of_ne _ hj _, rfl⟩

/-- A task counts itself. -/
theorem do_task (h : Inv size s) {i : Fin n} (hi : i ∈ s.pending) : Inv size (s.do_task i) := by
  have hcard := Finset.card_erase_add_one hi
  have hsucc : s.done + 1 = .ofNat ((doing s.output).length + 1) := by
    rw [h.done, Int32.ofNat_add]
    rfl
  have hdoing : doing (s.do_task i).output =
      doing s.output ++ [.ofNat ((doing s.output).length + 1)] := by
    show doing (s.output ++ [.doing (s.done + 1)]) = _
    rw [doing_append, hsucc]
    rfl
  have hlength : (doing (s.do_task i).output).length = (doing s.output).length + 1 := by
    rw [hdoing, List.length_append, List.length_singleton]
  refine ⟨h.pool, h.opened, h.pc, h.accepted, ?_, ?_, ?_, ?_⟩
  · rw [pending_erase (s := s) (i := i), hlength]
    · have htaken := h.taken
      show (ThreadPool.taken s.pool.trace).length = _
      omega
    · show ¬ Uncounted (s.pool.workers i) (update s.counted i true i)
      rw [update_self]
      cases s.pool.workers i <;> simp [Uncounted]
    · exact fun j hj => ⟨rfl, update_of_ne hj _ _⟩
  · rw [hlength]
    exact hsucc
  · rw [hlength, hdoing, List.range_succ, List.map_append, ← h.output]
    rfl
  · simpa [Program.do_task] using h.silent

theorem step (hn : 0 < n) (s : Program n) (a : Action n) (s' : Program n) (h : Inv size s)
    (hs : Program.step s a = some s') : Inv size s' := by
  cases a with
  | main signalled => exact h.main hn hs
  | worker i =>
    obtain ⟨pool, hpool, rfl⟩ := Option.map_eq_some_iff.mp hs
    exact h.worker hn hpool
  | spurious i =>
    obtain ⟨pool, hpool, rfl⟩ := Option.map_eq_some_iff.mp hs
    cases step_cases hpool with
    | spurious hi =>
      refine h.setWorker hn hpool (fun hmem => ?_) (Or.inr rfl)
      rw [mem_pending, hi] at hmem
      exact hmem
  | do_task i =>
    simp only [Program.step] at hs
    split at hs
    · next task hi =>
      obtain ⟨hcounted, hs⟩ := Option.ite_none_left_eq_some.mp hs
      cases hs
      refine h.do_task (mem_pending.mpr ?_)
      rw [hi]
      exact Bool.eq_false_iff.mpr hcounted
    · cases hs
  | taskDone i =>
    obtain ⟨hcounted, hs⟩ := Option.ite_none_right_eq_some.mp hs
    obtain ⟨pool, hpool, rfl⟩ := Option.map_eq_some_iff.mp hs
    cases step_cases hpool with
    | taskDone hi =>
      refine h.setWorker hn hpool (fun hmem => ?_) (Or.inl rfl)
      rw [mem_pending, hi, hcounted] at hmem
      cases hmem

end Inv

/-- One worker and a queue of one cell: the second task is refused, and the first one done. -/
def refused : List (Action 1) :=
  [.main [], .main [], .main [], .worker onlyWorker, .do_task onlyWorker, .taskDone onlyWorker,
    .worker onlyWorker]

end Program

end CppInOne.ThreadPool
