import Mathlib.Algebra.Group.Nat.Defs
import CppInOne.ThreadPool.ThrdPool

/-!
# The order of the tasks

The tasks that `thread_pool_post` accepts wait in a ring buffer until a worker takes them.
This file proves that the workers take them in the order of their acceptance until the pool
is closed, and that no task waits while every worker sleeps.

## Main results

- `tasks_in_order` — indices, order, refusals and wakeups of a pool
-/

namespace CppInOne.ThreadPool
open Transition Trace RingBuffer

variable {n : Nat} {F A : Type*} {s s' : State n F A}

/-! ## What the trace says -/

/-- The tasks for which `thread_pool_post` has returned 0. -/
def accepted (t : List (Event n F A)) : List (Task F A) :=
  t.filterMap fun
    | .posted (some func) arg 0 => some ⟨func, arg⟩
    | _ => none

/-- The tasks that workers have taken. -/
def taken (t : List (Event n F A)) : List (Task F A) :=
  t.filterMap fun
    | .taken _ task => some task
    | _ => none

/-- No task is taken after `closed` was set, and the queue is full when a task is refused for
this reason. -/
def Permitted (size : Nat) (pre : List (Event n F A)) : Event n F A → Prop
  | .taken _ _ => .closed ∉ pre
  | .posted _ _ result => result = -4 → (accepted pre).length = (taken pre).length + size
  | .closed => True

@[simp] theorem accepted_append (t t' : List (Event n F A)) :
    accepted (t ++ t') = accepted t ++ accepted t' := List.filterMap_append

@[simp] theorem taken_append (t t' : List (Event n F A)) :
    taken (t ++ t') = taken t ++ taken t' := List.filterMap_append

/-! ## The invariant -/

def State.size (s : State n F A) : Nat := s.queue_size.toUInt32.toNat

/-- A positive `int` keeps its value as a `uint32_t`. -/
theorem toUInt32_bounds {x : Int32} (h : 0 < x) :
    0 < x.toUInt32.toNat ∧ x.toUInt32.toNat < 2 ^ 31 := by
  have hpos : 0 < x.toBitVec.toInt := by
    simpa using Int32.lt_iff_toInt_lt.mp h
  have hlt := x.toBitVec.isLt
  rw [BitVec.toInt_eq_toNat_cond] at hpos
  show 0 < x.toBitVec.toNat ∧ x.toBitVec.toNat < 2 ^ 31
  split at hpos <;> omega

/-- The next index, of a queue of at most `2 ^ 31` cells. -/
theorem toNat_next {x q : UInt32} (hq : q.toNat < 2 ^ 31) (hx : x.toNat < q.toNat) :
    ((x + 1) % q).toNat = (x.toNat + 1) % q.toNat := by
  have hsucc : (x + 1).toNat = x.toNat + 1 := by
    rw [UInt32.toNat_add]
    show (x.toNat + 1) % 2 ^ 32 = x.toNat + 1
    apply Nat.mod_eq_of_lt
    omega
  rw [UInt32.toNat_mod, hsucc]

/-- The tasks that wait in the queue. -/
def State.waiting (s : State n F A) : List (Task F A) :=
  contents s.size s.task_queue.queue s.task_queue.head.toNat s.task_queue.count.toNat

structure Inv (size : Nat) (s : State n F A) : Prop where
  size_eq : s.size = size
  size_lt : size < 2 ^ 31
  ring : Valid size s.task_queue.head.toNat s.task_queue.tail.toNat s.task_queue.count.toNat
  flag : s.closed = 0 ∨ s.closed = 1
  order : accepted s.trace = taken s.trace ++ s.waiting
  awake : s.closed = 0 → 0 < s.task_queue.count.toNat → ∃ i, (s.workers i).asleep = false
  closed : .closed ∈ s.trace → s.closed = 1
  permitted : Justified (Permitted size) s.trace

theorem inv_created (n : Nat) {queue_size : Int32} (hsize : 0 < queue_size)
    (queue₀ : Nat → Task F A) :
    Inv queue_size.toUInt32.toNat (created n queue_size queue₀) := by
  obtain ⟨hpos, hlt⟩ := toUInt32_bounds hsize
  refine ⟨rfl, hlt, ⟨hpos, Nat.zero_le _, Nat.zero_mod _⟩, Or.inl rfl, rfl, ?_, ?_,
    justified_nil⟩
  · intro _ hcount
    cases hcount
  · intro hmem
    cases hmem

namespace Inv

variable {size : Nat}

/-- The workers change, and one of them is awake. -/
theorem setWorker (h : Inv size s) (i : Fin n) {w : Worker F A} (hw : w.asleep = false) :
    Inv size (s.setWorker i w) := by
  refine ⟨h.size_eq, h.size_lt, h.ring, h.flag, h.order, fun _ _ => ⟨i, ?_⟩, h.closed, h.permitted⟩
  simp [State.setWorker, hw]

/-- A worker finds no task and falls asleep. -/
theorem fallAsleep (h : Inv size s) (i : Fin n) (hcount : s.task_queue.count = 0) :
    Inv size (s.setWorker i .waiting) := by
  refine ⟨h.size_eq, h.size_lt, h.ring, h.flag, h.order, fun _ hpos => ?_, h.closed, h.permitted⟩
  have hzero : s.task_queue.count.toNat = 0 := by rw [hcount]; rfl
  have hpos' : 0 < s.task_queue.count.toNat := hpos
  omega

/-- The tail and the count of the queue after an accepted task. -/
theorem push_toNat (h : Inv size s) (hfull : s.queue_size.toUInt32 ≠ s.task_queue.count) :
    s.task_queue.count.toNat < size ∧
      ((s.task_queue.tail + 1) % s.queue_size.toUInt32).toNat =
        (s.task_queue.tail.toNat + 1) % size ∧
      (s.task_queue.count + 1).toNat = s.task_queue.count.toNat + 1 := by
  have hsize : s.queue_size.toUInt32.toNat = size := h.size_eq
  have hlt := h.size_lt
  have hne : size ≠ s.task_queue.count.toNat := by
    intro heq
    exact hfull (UInt32.toNat_inj.mp (hsize.trans heq))
  have hle := h.ring.count_le
  refine ⟨by omega, ?_, ?_⟩
  · rw [toNat_next (by omega) (by rw [hsize]; exact h.ring.tail_lt), hsize]
  · rw [UInt32.toNat_add]
    show (s.task_queue.count.toNat + 1) % 2 ^ 32 = s.task_queue.count.toNat + 1
    apply Nat.mod_eq_of_lt
    omega

/-- The head and the count of the queue after a task was taken. -/
theorem pop_toNat (h : Inv size s) (hcount : s.task_queue.count ≠ 0) :
    ((s.task_queue.head + 1) % s.queue_size.toUInt32).toNat =
        (s.task_queue.head.toNat + 1) % size ∧
      s.task_queue.count.toNat = (s.task_queue.count - 1).toNat + 1 := by
  have hsize : s.queue_size.toUInt32.toNat = size := h.size_eq
  have hlt := h.size_lt
  have hone : (1 : UInt32).toNat = 1 := rfl
  have hne : s.task_queue.count.toNat ≠ 0 := by
    intro heq
    exact hcount (UInt32.toNat_inj.mp heq)
  refine ⟨?_, ?_⟩
  · rw [toNat_next (by omega) (by rw [hsize]; exact h.ring.head_lt), hsize]
  · rw [UInt32.toNat_sub_of_le]
    · omega
    · rw [UInt32.le_iff_toNat_le]
      omega

/-- A worker takes the oldest task. -/
theorem take (h : Inv size s) (i : Fin n) (hcount : s.task_queue.count ≠ 0)
    (hclosed : s.closed ≠ 1) :
    Inv size (({ s with
      task_queue :=
        { s.task_queue with
          head := (s.task_queue.head + 1) % s.queue_size.toUInt32
          count := s.task_queue.count - 1 } }.setWorker i
        (.running (s.task_queue.queue s.task_queue.head.toNat))).emit
      (.taken i (s.task_queue.queue s.task_queue.head.toNat))) := by
  obtain ⟨hhead, hcount'⟩ := h.pop_toNat hcount
  have hring := h.ring
  rw [hcount'] at hring
  have hwaiting : s.waiting = s.task_queue.queue s.task_queue.head.toNat ::
      contents size s.task_queue.queue ((s.task_queue.head.toNat + 1) % size)
        (s.task_queue.count - 1).toNat := by
    rw [State.waiting, h.size_eq, hcount']
    exact contents_pop _ hring
  refine ⟨h.size_eq, h.size_lt, ?_, h.flag, ?_, fun _ _ => ⟨i, ?_⟩, fun hmem => ?_,
    h.permitted.concat fun hmem => hclosed (h.closed hmem)⟩
  · show Valid size ((s.task_queue.head + 1) % s.queue_size.toUInt32).toNat _ _
    rw [hhead]
    exact hring.pop
  · have hold := h.order
    rw [hwaiting] at hold
    show accepted (s.trace ++ _) = taken (s.trace ++ _) ++ contents s.size s.task_queue.queue
      ((s.task_queue.head + 1) % s.queue_size.toUInt32).toNat (s.task_queue.count - 1).toNat
    rw [hhead, h.size_eq, accepted_append, taken_append, hold]
    simp [accepted, taken]
  · simp [State.emit, State.setWorker, Worker.asleep]
  · have hold : .closed ∈ s.trace := by simpa [State.emit, State.setWorker] using hmem
    exact h.closed hold

theorem thread_worker (h : Inv size s) (i : Fin n) : Inv size (s.thread_worker i) := by
  unfold State.thread_worker
  split
  · next hidle => exact h.fallAsleep i hidle.1
  · next hidle =>
    split
    · next hclosed =>
      refine ⟨h.size_eq, h.size_lt, h.ring, h.flag, h.order, fun heq => ?_, h.closed, h.permitted⟩
      exact absurd (hclosed.symm.trans heq) (by decide)
    · next hopen =>
      refine h.take i (fun hcount => hidle ⟨hcount, ?_⟩) hopen
      exact h.flag.resolve_right hopen

/-- A task is accepted, and somebody is awake for it. -/
theorem accept (h : Inv size s) (hn : 0 < n) {func : F} {arg : A} {signalled : List (Fin n)}
    (hfull : s.queue_size.toUInt32 ≠ s.task_queue.count) (hsignal : s.MaySignal signalled) :
    Inv size (({ s with
      task_queue :=
        { s.task_queue with
          queue := Function.update s.task_queue.queue s.task_queue.tail.toNat ⟨func, arg⟩
          tail := (s.task_queue.tail + 1) % s.queue_size.toUInt32
          count := s.task_queue.count + 1 } }.wake signalled).emit
      (.posted (some func) arg 0)) := by
  obtain ⟨hroom, htail, hcount⟩ := h.push_toNat hfull
  have hwaiting : contents size
      (Function.update s.task_queue.queue s.task_queue.tail.toNat ⟨func, arg⟩)
      s.task_queue.head.toNat (s.task_queue.count + 1).toNat = s.waiting ++ [⟨func, arg⟩] := by
    rw [hcount, contents_push _ _ h.ring hroom, State.waiting, h.size_eq]
  refine ⟨h.size_eq, h.size_lt, ?_, h.flag, ?_, fun _ _ => ?_, fun hmem => ?_,
    h.permitted.concat ?_⟩
  · show Valid size _ ((s.task_queue.tail + 1) % s.queue_size.toUInt32).toNat
      (s.task_queue.count + 1).toNat
    rw [htail, hcount]
    exact h.ring.push hroom
  · show accepted (s.trace ++ _) = taken (s.trace ++ _) ++ contents s.size
      (Function.update s.task_queue.queue s.task_queue.tail.toNat ⟨func, arg⟩)
      s.task_queue.head.toNat (s.task_queue.count + 1).toNat
    rw [h.size_eq, hwaiting, accepted_append, taken_append, h.order]
    simp [accepted, taken]
  · show ∃ i, (if i ∈ signalled then Worker.woken else s.workers i).asleep = false
    cases signalled with
    | nil => exact ⟨⟨0, hn⟩, by simpa using hsignal.2 rfl ⟨0, hn⟩⟩
    | cons i rest => exact ⟨i, by simp [Worker.asleep]⟩
  · have hold : .closed ∈ s.trace := by simpa [State.emit, State.wake] using hmem
    exact h.closed hold
  · intro heq
    cases heq

/-- A task is refused. -/
theorem refuse (h : Inv size s) {func : Option F} {arg : A} {result : Int}
    (hresult : func = none ∨ result ≠ 0)
    (hfull : result = -4 → s.queue_size.toUInt32 = s.task_queue.count) :
    Inv size (s.emit (.posted func arg result)) := by
  have hnothing : accepted [Event.posted (n := n) func arg result] = [] := by
    cases func with
    | none => rfl
    | some func =>
      have hne : result ≠ 0 := hresult.resolve_left (by simp)
      simp only [accepted, List.filterMap_cons, List.filterMap_nil]
      split <;> simp_all
  refine ⟨h.size_eq, h.size_lt, h.ring, h.flag, ?_, h.awake, fun hmem => ?_,
    h.permitted.concat fun heq => ?_⟩
  · show accepted (s.trace ++ _) = taken (s.trace ++ _) ++ s.waiting
    rw [accepted_append, taken_append, hnothing, h.order]
    simp [taken]
  · have hold : .closed ∈ s.trace := by simpa [State.emit] using hmem
    exact h.closed hold
  · have hlen := congrArg List.length h.order
    rw [List.length_append, State.waiting, length_contents, ← hfull heq] at hlen
    rw [hlen, ← h.size_eq]
    rfl

theorem post (h : Inv size s) (hn : 0 < n) (func : Option F) (arg : A)
    {signalled : List (Fin n)} (hsignal : s.MaySignal signalled) :
    Inv size ((s.thread_pool_post func arg signalled).1.emit
      (.posted func arg (s.thread_pool_post func arg signalled).2)) := by
  unfold State.thread_pool_post
  split
  · exact h.refuse (Or.inl rfl) (by omega)
  · split
    · exact h.refuse (Or.inr (by simp)) (by simp)
    · split
      · next hfull => exact h.refuse (Or.inr (by simp)) fun _ => hfull
      · next hfull => exact h.accept hn hfull hsignal

theorem thread_pool_destory (h : Inv size s) : Inv size s.thread_pool_destory := by
  unfold State.thread_pool_destory
  split
  · exact ⟨h.size_eq, h.size_lt, h.ring, h.flag, h.order, h.awake, h.closed, h.permitted⟩
  · refine ⟨h.size_eq, h.size_lt, h.ring, Or.inr rfl, ?_, ?_, fun _ => rfl,
      h.permitted.concat trivial⟩
    · show accepted (s.trace ++ _) = taken (s.trace ++ _) ++ s.waiting
      rw [accepted_append, taken_append, h.order]
      simp [accepted, taken]
    · intro heq
      cases heq

theorem step (hn : 0 < n) (s : State n F A) (a : Action n F A) (s' : State n F A)
    (h : Inv size s) (hs : step s a = some s') : Inv size s' := by
  cases step_cases hs with
  | post func arg hsignal => exact h.post hn func arg hsignal
  | destory => exact h.thread_pool_destory
  | join =>
    exact ⟨h.size_eq, h.size_lt, h.ring, h.flag, h.order, h.awake, h.closed, h.permitted⟩
  | worker => exact h.thread_worker _
  | taskDone => exact h.setWorker _ rfl
  | spurious => exact h.setWorker _ rfl

end Inv

/-- **The workers run the tasks in the order of their acceptance.** In every state of a pool
with at least one worker and one cell the indices fit, what the workers have taken is a prefix
of what was accepted, tasks are taken only before the pool is closed and refused for want of
room only when the queue is full, and no task waits while every worker sleeps. -/
theorem tasks_in_order (n : Nat) (hn : 0 < n) (queue_size : Int32) (hsize : 0 < queue_size)
    (queue₀ : Nat → Task F A) (s : State n F A)
    (hs : Reachable step (created n queue_size queue₀) s) :
    (s.task_queue.head.toNat < s.size ∧ s.task_queue.tail.toNat < s.size ∧
      s.task_queue.count.toNat ≤ s.size ∧
      (s.task_queue.head.toNat + s.task_queue.count.toNat) % s.size = s.task_queue.tail.toNat) ∧
    taken s.trace <+: accepted s.trace ∧ Justified (Permitted s.size) s.trace ∧
    ¬ (0 < s.task_queue.count.toNat ∧ s.closed = 0 ∧ ∀ i, s.workers i = .waiting) := by
  have h : Inv queue_size.toUInt32.toNat s :=
    reachable_invariant (Inv.step hn) (inv_created n hsize queue₀) hs
  rw [h.size_eq]
  refine ⟨⟨h.ring.head_lt, h.ring.tail_lt, h.ring.count_le, h.ring.tail_eq⟩, ?_, h.permitted, ?_⟩
  · rw [h.order]
    exact List.prefix_append _ _
  · rintro ⟨hcount, hclosed, hasleep⟩
    obtain ⟨i, hawake⟩ := h.awake hclosed hcount
    rw [hasleep i] at hawake
    cases hawake

def onlyWorker : Fin 1 := .last 0

/-- The only worker sleeps, is woken up for one task, and meanwhile a second task fills the queue
of one cell. -/
def fullQueue : List (Action 1 Nat Nat) :=
  [.worker onlyWorker, .post (some 7) 1 [onlyWorker], .worker onlyWorker, .post (some 7) 2 [],
    .post (some 7) 3 [], .taskDone onlyWorker, .worker onlyWorker]

theorem tasks_in_order_fullQueue :
    ∃ s, run step (created 1 1 fun _ => ⟨0, 0⟩) fullQueue = some s ∧
      s.trace = [.posted (some 7) 1 0, .taken 0 ⟨7, 1⟩, .posted (some 7) 2 0,
        .posted (some 7) 3 (-4), .taken 0 ⟨7, 2⟩] ∧
      taken s.trace <+: accepted s.trace := by
  refine ⟨_, rfl, rfl, ?_⟩
  have hreach : Reachable step (created 1 1 fun _ => Task.mk 0 0) _ := ⟨fullQueue, rfl⟩
  exact (tasks_in_order 1 (by decide) 1 (by decide) _ _ hreach).2.1

end CppInOne.ThreadPool
