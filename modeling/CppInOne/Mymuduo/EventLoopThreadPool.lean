import Mathlib.Algebra.Order.BigOperators.Group.List
import Mathlib.Algebra.Order.Group.Nat
import Mathlib.Algebra.Ring.Nat
import CppInOne.Lib.ByteString
import CppInOne.Lib.Transition

/-!
# The start of the loop threads

`EventLoopThreadPool::start` creates `numThreads_` threads one after the other. For each it calls
`startLoop`, which starts the thread (`Thread::start` waits on a semaphore for `tid_`) and then
waits on `cond_` until `threadFunc` has built its loop and stored it into `loop_`.
A step is one operation of the thread that calls `start` or of a loop thread on what the two
share. The loop itself is one state here: `loop()` may return at any time.

## Main results

- `start_returns` — every run is bounded, `start` never blocks while no loop ends too early, and
  it returns with the loops in order, each initialised once in its own thread
-/

namespace CppInOne.Mymuduo.EventLoopThreadPool
open Transition ByteString

/-- Where the thread that calls `start` is, in the round of its `i`. -/
inductive OwnerPc where
  /-- before the test `i < numThreads_` -/
  | round
  /-- the `EventLoopThread` is built: before `thread_.start()` -/
  | startThread
  /-- in `sem_wait` -/
  | semWait
  /-- before the lock in `startLoop`, or woken up in `cond_.wait` -/
  | lock
  /-- holds the lock: before the test of `loop_` -/
  | test
  /-- asleep in `cond_.wait` -/
  | wait
  | returned
  deriving DecidableEq, Repr

/-- Where a new thread is. -/
inductive ThreadPc where
  | notStarted
  /-- before the store of `tid_` -/
  | body
  /-- before `sem_post` -/
  | post
  /-- `threadFunc`: before `callback_(&loop)` -/
  | init
  | lock
  /-- before `loop_ = &loop` -/
  | store
  /-- before `notify_one` -/
  | notify
  | unlock
  /-- in `loop.loop()` -/
  | looping
  /-- `loop()` has returned: before the second lock -/
  | clearLock
  /-- before `loop_ = nullptr` -/
  | clear
  | ended
  deriving DecidableEq, Repr

/-- Who holds a mutex. -/
inductive Holder where
  | owner
  | thread
  deriving DecidableEq, Repr

/-- An `EventLoopThread` with the `Thread` inside it. -/
structure EventLoopThread where
  name_ : List UInt8
  pc : ThreadPc
  /-- `tid_` is stored. -/
  tid_ : Bool
  /-- the value of the semaphore of `Thread::start` -/
  sem : Nat
  mutex_ : Option Holder
  /-- `loop_` is not null. -/
  loop_ : Bool
  deriving DecidableEq, Repr

structure State where
  name_ : List UInt8
  numThreads_ : Int32
  /-- `start` got a callback. -/
  cb : Bool
  owner : OwnerPc
  i : Nat
  threads_ : List EventLoopThread
  /-- `loops_[j]` is the loop of the thread with this number. -/
  loops_ : List Nat
  /-- the calls of the callback: on the loop of this thread, or on `baseLoop_` -/
  inits : List (Option Nat)
  deriving DecidableEq, Repr

def start (name_ : List UInt8) (numThreads_ : Int32) (cb : Bool) : State where
  name_ := name_
  numThreads_ := numThreads_
  cb := cb
  owner := .round
  i := 0
  threads_ := []
  loops_ := []
  inits := []

/-- The text that `start` formats for the thread `i`. -/
def buf (name_ : List UInt8) (i : Nat) : List UInt8 :=
  snprintf (name_.length + 32) (name_.takeWhile (· ≠ 0) ++ decimal i)

def EventLoopThread.create (name_ : List UInt8) : EventLoopThread :=
  ⟨name_, .notStarted, false, 0, none, false⟩

/-- The next operation of the new thread: the body that `Thread::start` gives it, and in it
`threadFunc`. -/
def threadFunc (t : EventLoopThread) : Option EventLoopThread :=
  match t.pc with
  | .notStarted | .ended => none
  | .body => some { t with tid_ := true, pc := .post }
  | .post => some { t with sem := t.sem + 1, pc := .init }
  | .init => some { t with pc := .lock }
  | .lock => if t.mutex_ = none then some { t with mutex_ := some .thread, pc := .store } else none
  | .store => some { t with loop_ := true, pc := .notify }
  | .notify => some { t with pc := .unlock }
  | .unlock => some { t with mutex_ := none, pc := .looping }
  | .looping => some { t with pc := .clearLock }
  | .clearLock =>
    if t.mutex_ = none then some { t with mutex_ := some .thread, pc := .clear } else none
  | .clear => some { t with loop_ := false, mutex_ := none, pc := .ended }

/-- The next operation of `startLoop`, with `Thread::start` in it, on the thread `t`. -/
def startLoop (owner : OwnerPc) (t : EventLoopThread) : Option (OwnerPc × EventLoopThread) :=
  match owner with
  | .round | .wait | .returned => none
  | .startThread => some (.semWait, { t with pc := .body })
  | .semWait => if 0 < t.sem then some (.lock, { t with sem := t.sem - 1 }) else none
  | .lock => if t.mutex_ = none then some (.test, { t with mutex_ := some .owner }) else none
  | .test => some (if t.loop_ then .round else .wait, { t with mutex_ := none })

inductive Action where
  /-- the next operation of the thread that calls `start` -/
  | owner
  /-- the next operation of a new thread -/
  | thread (k : Nat)
  /-- `cond_.wait` returns without a notification -/
  | spurious
  deriving DecidableEq, Repr

def step (s : State) : Action → Option State
  | .owner =>
    if s.owner = .round then
      if (s.i : Int) < s.numThreads_.toInt then
        some { s with
          threads_ := s.threads_ ++ [EventLoopThread.create (buf s.name_ s.i)]
          owner := .startThread }
      else
        some { s with
          inits := if s.numThreads_ = 0 ∧ s.cb then s.inits ++ [none] else s.inits
          owner := .returned }
    else do
      let t ← s.threads_[s.i]?
      let (owner, t') ← startLoop s.owner t
      some { s with
        owner
        threads_ := s.threads_.set s.i t'
        -- `loops_.push_back(t->startLoop())`, and the next round
        loops_ := if owner = .round then s.loops_ ++ [s.i] else s.loops_
        i := if owner = .round then s.i + 1 else s.i }
  | .thread k => do
    let t ← s.threads_[k]?
    let t' ← threadFunc t
    some { s with
      threads_ := s.threads_.set k t'
      owner := if t.pc = .notify ∧ k = s.i ∧ s.owner = .wait then .lock else s.owner
      inits := if t.pc = .init ∧ s.cb then s.inits ++ [some k] else s.inits }
  | .spurious => if s.owner = .wait then some { s with owner := .lock } else none

/-- What a step does. -/
inductive Step (s : State) : Action → State → Prop
  /-- The thread `i` is created. -/
  | create (howner : s.owner = .round) (hi : (s.i : Int) < s.numThreads_.toInt) :
    Step s .owner { s with
      threads_ := s.threads_ ++ [EventLoopThread.create (buf s.name_ s.i)], owner := .startThread }
  /-- The loop of `start` is over. -/
  | finish (howner : s.owner = .round) (hi : ¬ (s.i : Int) < s.numThreads_.toInt) :
    Step s .owner { s with
      inits := if s.numThreads_ = 0 ∧ s.cb then s.inits ++ [none] else s.inits
      owner := .returned }
  | startLoop {t t' : EventLoopThread} {owner : OwnerPc} (hround : s.owner ≠ .round)
    (ht : s.threads_[s.i]? = some t) (ht' : startLoop s.owner t = some (owner, t')) :
    Step s .owner { s with
      owner
      threads_ := s.threads_.set s.i t'
      loops_ := if owner = .round then s.loops_ ++ [s.i] else s.loops_
      i := if owner = .round then s.i + 1 else s.i }
  | thread {k : Nat} {t t' : EventLoopThread} (ht : s.threads_[k]? = some t)
    (ht' : threadFunc t = some t') :
    Step s (.thread k) { s with
      threads_ := s.threads_.set k t'
      owner := if t.pc = .notify ∧ k = s.i ∧ s.owner = .wait then .lock else s.owner
      inits := if t.pc = .init ∧ s.cb then s.inits ++ [some k] else s.inits }
  | spurious (howner : s.owner = .wait) : Step s .spurious { s with owner := .lock }

theorem Step.of_step {s s' : State} {a : Action} (h : step s a = some s') : Step s a s' := by
  cases a with
  | owner =>
    by_cases howner : s.owner = .round
    · by_cases hi : (s.i : Int) < s.numThreads_.toInt
      · rw [step, if_pos howner, if_pos hi] at h
        cases h
        exact .create howner hi
      · rw [step, if_pos howner, if_neg hi] at h
        cases h
        exact .finish howner hi
    · rw [step, if_neg howner] at h
      simp only [Option.bind_eq_bind, Option.bind_eq_some_iff] at h
      obtain ⟨t, ht, ⟨owner, t'⟩, ht', h⟩ := h
      cases h
      exact .startLoop howner ht ht'
  | thread k =>
    simp only [step, Option.bind_eq_bind, Option.bind_eq_some_iff] at h
    obtain ⟨t, ht, t', ht', h⟩ := h
    cases h
    exact .thread ht ht'
  | spurious =>
    simp only [step, Option.ite_none_right_eq_some, Option.some.injEq] at h
    obtain ⟨howner, rfl⟩ := h
    exact .spurious howner

/-! ## One thread and its owner -/

/-- The operations that the thread has left. -/
def ThreadPc.left : ThreadPc → Nat
  | .notStarted | .body => 10
  | .post => 9
  | .init => 8
  | .lock => 7
  | .store => 6
  | .notify => 5
  | .unlock => 4
  | .looping => 3
  | .clearLock => 2
  | .clear => 1
  | .ended => 0

theorem threadFunc_spec {t t' : EventLoopThread} (h : threadFunc t = some t') :
    t'.pc.left + 1 = t.pc.left ∧ t'.name_ = t.name_ := by
  cases hpc : t.pc with
  | notStarted | ended => simp [threadFunc, hpc] at h
  | lock | clearLock =>
    simp only [threadFunc, hpc, Option.ite_none_right_eq_some] at h
    obtain ⟨_, h⟩ := h
    cases h
    exact ⟨rfl, rfl⟩
  | body | post | init | store | notify | unlock | looping | clear =>
    simp only [threadFunc, hpc, Option.some.injEq] at h
    subst h
    exact ⟨rfl, rfl⟩

/-- The owner is in `startLoop`, or about to call it. -/
def OwnerPc.starting : OwnerPc → Bool
  | .round | .returned => false
  | _ => true

/-- The notification moves the owner inside `startLoop`. -/
theorem starting_woken (pc : ThreadPc) (k i : Nat) (owner : OwnerPc) :
    (if pc = .notify ∧ k = i ∧ owner = .wait then OwnerPc.lock else owner).starting =
      owner.starting := by
  split_ifs with hwoken
  · rw [hwoken.2.2]
    rfl
  · rfl

/-- What `startLoop` changes besides the semaphore and the lock. -/
structure StartsLoop (owner owner' : OwnerPc) (t t' : EventLoopThread) : Prop where
  starting : owner.starting = true
  next : owner'.starting = true ∨ owner' = .round ∧ t.loop_ = true
  name : t'.name_ = t.name_
  pc : t'.pc = if owner = .startThread then .body else t.pc

theorem startLoop_spec {owner owner' : OwnerPc} {t t' : EventLoopThread}
    (h : startLoop owner t = some (owner', t')) : StartsLoop owner owner' t t' := by
  cases owner with
  | round | wait | returned => cases h
  | startThread =>
    cases h
    exact ⟨rfl, .inl rfl, rfl, rfl⟩
  | semWait | lock =>
    simp only [startLoop, Option.ite_none_right_eq_some] at h
    obtain ⟨_, h⟩ := h
    cases h
    exact ⟨rfl, .inl rfl, rfl, rfl⟩
  | test =>
    simp only [startLoop, Option.some.injEq, Prod.mk.injEq] at h
    obtain ⟨rfl, rfl⟩ := h
    refine ⟨rfl, ?_, rfl, rfl⟩
    cases hl : t.loop_ with
    | true => exact .inr ⟨rfl, rfl⟩
    | false => exact .inl rfl

/-- The thread holds `mutex_`. -/
def ThreadPc.holds : ThreadPc → Bool
  | .store | .notify | .unlock | .clear => true
  | _ => false

/-- A thread together with the owner in its round; `round` stands for an owner that has read
`loop_`. -/
structure Sync (owner : OwnerPc) (t : EventLoopThread) : Prop where
  held_owner : t.mutex_ = some .owner ↔ owner = .test
  held_thread : t.mutex_ = some .thread ↔ t.pc.holds = true
  tid : t.tid_ = true ↔ t.pc.left ≤ 9
  sem : t.sem = if owner = .semWait ∧ t.pc.left ≤ 8 then 1 else 0
  loop : t.loop_ = true ↔ 1 ≤ t.pc.left ∧ t.pc.left ≤ 5
  unstarted : t.pc = .notStarted ↔ owner = .startThread
  begun : owner ≠ .startThread → owner ≠ .semWait → t.pc.left ≤ 8
  /-- the notification is still to come, or it was in vain -/
  waiting : owner = .wait → 5 ≤ t.pc.left ∨ t.pc = .ended
  read : owner = .round → t.pc.left ≤ 3

theorem sync_create (name_ : List UInt8) : Sync .startThread (EventLoopThread.create name_) where
  held_owner := by simp [EventLoopThread.create]
  held_thread := by simp [EventLoopThread.create, ThreadPc.holds]
  tid := by simp [EventLoopThread.create, ThreadPc.left]
  sem := by simp [EventLoopThread.create]
  loop := by simp [EventLoopThread.create, ThreadPc.left]
  unstarted := by simp [EventLoopThread.create]
  begun := by simp
  waiting := by simp
  read := by simp

namespace Sync

variable {owner : OwnerPc} {t t' : EventLoopThread}

theorem startLoop {owner' : OwnerPc} (h : Sync owner t)
    (hs : startLoop owner t = some (owner', t')) : Sync owner' t' := by
  obtain ⟨howner, hthread, htid, hsem, hloop, hunstarted, hbegun, hwaiting, hread⟩ := h
  cases owner with
  | round | wait | returned => cases hs
  | startThread =>
    have hpc : t.pc = .notStarted := hunstarted.mpr rfl
    cases hs
    constructor <;> simp_all [ThreadPc.left, ThreadPc.holds]
  | semWait =>
    simp only [EventLoopThreadPool.startLoop, Option.ite_none_right_eq_some] at hs
    obtain ⟨hpos, hs⟩ := hs
    -- the semaphore is up, so the thread is past its `sem_post`
    have hposted : t.pc.left ≤ 8 := by
      by_contra hleft
      rw [hsem, if_neg fun hup => hleft hup.2] at hpos
      exact absurd hpos (Nat.lt_irrefl 0)
    cases hs
    constructor <;> simp_all
  | lock =>
    simp only [EventLoopThreadPool.startLoop, Option.ite_none_right_eq_some] at hs
    obtain ⟨hfree, hs⟩ := hs
    cases hs
    constructor <;> simp_all
  | test =>
    -- the owner holds the lock, so the thread is outside its two critical sections
    have houtside : t.pc.holds = false := by
      simpa [howner.mpr rfl] using hthread
    cases hl : t.loop_ with
    | true =>
      have hpublished : t.pc.left ≤ 3 := by
        have hbounds := hloop.mp hl
        cases hpc : t.pc <;> simp [hpc, ThreadPc.left, ThreadPc.holds] at hbounds houtside ⊢
      simp only [EventLoopThreadPool.startLoop, hl] at hs
      cases hs
      constructor <;> simp_all
    | false =>
      have hunpublished : 5 ≤ t.pc.left ∨ t.pc = .ended := by
        have hbounds : ¬ (1 ≤ t.pc.left ∧ t.pc.left ≤ 5) := fun hb => by simp [hloop.mpr hb] at hl
        cases hpc : t.pc <;> simp [hpc, ThreadPc.left] at hbounds ⊢
      simp only [EventLoopThreadPool.startLoop, hl] at hs
      cases hs
      constructor <;> simp_all

theorem threadFunc (h : Sync owner t) (hs : threadFunc t = some t') :
    Sync (if t.pc = .notify ∧ owner = .wait then .lock else owner) t' := by
  obtain ⟨howner, hthread, htid, hsem, hloop, hunstarted, hbegun, hwaiting, hread⟩ := h
  cases hpc : t.pc with
  | notStarted | ended => simp [EventLoopThreadPool.threadFunc, hpc] at hs
  | lock | clearLock =>
    simp only [EventLoopThreadPool.threadFunc, hpc, Option.ite_none_right_eq_some] at hs
    obtain ⟨hfree, hs⟩ := hs
    cases hs
    constructor <;> simp_all [ThreadPc.left, ThreadPc.holds]
  | notify =>
    simp only [EventLoopThreadPool.threadFunc, hpc, Option.some.injEq] at hs
    subst hs
    by_cases hasleep : owner = .wait
    · constructor <;> simp_all [ThreadPc.left, ThreadPc.holds]
    · constructor <;> simp_all [ThreadPc.left, ThreadPc.holds]
  | body | post | init | store | unlock | looping | clear =>
    simp only [EventLoopThreadPool.threadFunc, hpc, Option.some.injEq] at hs
    subst hs
    constructor <;> simp_all [ThreadPc.left, ThreadPc.holds]

theorem wake (h : Sync .wait t) : Sync .lock t := by
  obtain ⟨howner, hthread, htid, hsem, hloop, hunstarted, hbegun, hwaiting, hread⟩ := h
  constructor <;> simp_all

theorem tid_of_posted (h : Sync owner t) (hstart : owner ≠ .startThread)
    (hwait : owner ≠ .semWait) : t.tid_ = true :=
  h.tid.mpr (Nat.le_succ_of_le (h.begun hstart hwait))

end Sync

/-- The thread takes no step of its own when the owner does. -/
theorem startLoop_pcLeft {owner owner' : OwnerPc} {t t' : EventLoopThread} (hsync : Sync owner t)
    (h : startLoop owner t = some (owner', t')) : t'.pc.left = t.pc.left := by
  rw [(startLoop_spec h).pc]
  split_ifs with hstart
  · rw [hsync.unstarted.mpr hstart]
    rfl
  · rfl

/-! ## The threads that there are -/

/-- What the thread `k` sees of the owner. -/
def State.view (s : State) (k : Nat) : OwnerPc := if k < s.i then .round else s.owner

/-- `numThreads_` threads are wanted; a negative number counts as none. -/
def State.wanted (s : State) : Nat := s.numThreads_.toInt.toNat

/-- The call of the callback that belongs to the round of `i`, once it is made. -/
def State.lastInit (s : State) : List (Option Nat) :=
  match s.threads_[s.i]? with
  | some t => if t.pc.left ≤ 7 then [some s.i] else []
  | none => if s.owner = .returned ∧ s.numThreads_ = 0 then [none] else []

structure Inv (s : State) : Prop where
  length : s.threads_.length = s.i + s.owner.starting.toNat
  bound : s.threads_.length ≤ s.wanted
  returned : s.owner = .returned → s.i = s.wanted
  loops : s.loops_ = List.range s.i
  sync : ∀ k t, s.threads_[k]? = some t → Sync (s.view k) t
  names : ∀ k t, s.threads_[k]? = some t → t.name_ = buf s.name_ k
  inits : s.inits = if s.cb then (List.range s.i).map some ++ s.lastInit else []

theorem inv_start (name_ : List UInt8) (numThreads_ : Int32) (cb : Bool) :
    Inv (start name_ numThreads_ cb) where
  length := rfl
  bound := Nat.zero_le _
  returned h := by cases h
  loops := rfl
  sync k t ht := by cases ht
  names k t ht := by cases ht
  inits := by simp [start, State.lastInit]

theorem getElem?_set_cases {α : Type*} {l : List α} {k j : Nat} {x y : α}
    (h : (l.set k x)[j]? = some y) : j = k ∧ y = x ∨ j ≠ k ∧ l[j]? = some y := by
  obtain rfl | hne := eq_or_ne j k
  · simp only [List.getElem?_set, if_true, Option.ite_none_right_eq_some] at h
    exact .inl ⟨rfl, (Option.some.inj h.2).symm⟩
  · rw [List.getElem?_set_ne hne.symm] at h
    exact .inr ⟨hne, h⟩

theorem getElem?_concat_cases {α : Type*} {l : List α} {k : Nat} {x y : α}
    (h : (l ++ [x])[k]? = some y) : k < l.length ∧ l[k]? = some y ∨ k = l.length ∧ y = x := by
  rw [List.getElem?_append] at h
  split_ifs at h with hk
  · exact .inl ⟨hk, h⟩
  · rw [List.getElem?_singleton, Option.ite_none_right_eq_some] at h
    exact .inr ⟨by omega, (Option.some.inj h.2).symm⟩

/-- What `start` is called with. -/
def State.settings (s : State) : List UInt8 × Int32 × Bool := (s.name_, s.numThreads_, s.cb)

theorem step_settings {s s' : State} {a : Action} (h : step s a = some s') :
    s'.settings = s.settings := by
  cases Step.of_step h <;> rfl

theorem reachable_settings {s t : State} (h : Reachable step s t) : t.settings = s.settings :=
  reachable_invariant (I := fun u => u.settings = s.settings)
    (fun _ _ _ hI hs => (step_settings hs).trans hI) rfl h

namespace Inv

variable {s : State}

theorem lt_length (h : Inv s) {k : Nat} {t : EventLoopThread} (ht : s.threads_[k]? = some t) :
    k < s.i ∨ k = s.i ∧ s.owner.starting = true := by
  have hk := (List.getElem?_eq_some_iff.mp ht).1
  rw [h.length] at hk
  cases hstarting : s.owner.starting with
  | false => exact .inl (by simpa [hstarting] using hk)
  | true =>
    rw [hstarting] at hk
    exact (Nat.lt_succ_iff_lt_or_eq.mp hk).imp_right fun heq => ⟨heq, rfl⟩

theorem create (h : Inv s) (howner : s.owner = .round)
    (hi : (s.i : Int) < s.numThreads_.toInt) :
    Inv { s with
      threads_ := s.threads_ ++ [EventLoopThread.create (buf s.name_ s.i)]
      owner := .startThread } := by
  have hlength : s.threads_.length = s.i := by
    rw [h.length, howner]
    rfl
  have hnone : s.threads_[s.i]? = none := List.getElem?_eq_none (Nat.le_of_eq hlength)
  have hinits := h.inits
  refine ⟨?_, ?_, (by simp), h.loops, fun k t ht => ?_,
    fun k t ht => ?_, ?_⟩
  · rw [List.length_append, hlength]
    rfl
  · rw [List.length_append, hlength]
    show s.i + 1 ≤ s.numThreads_.toInt.toNat
    omega
  · obtain ⟨hk, ht⟩ | ⟨rfl, rfl⟩ := getElem?_concat_cases ht
    · have hsync := h.sync k t ht
      rw [hlength] at hk
      simpa [State.view, hk] using hsync
    · simpa [State.view, hlength] using sync_create _
  · obtain ⟨hk, ht⟩ | ⟨rfl, rfl⟩ := getElem?_concat_cases ht
    · exact h.names k t ht
    · rw [hlength]
      rfl
  · have hlast : (s.threads_ ++ [EventLoopThread.create (buf s.name_ s.i)])[s.i]? =
        some (EventLoopThread.create (buf s.name_ s.i)) := by
      rw [← hlength, List.getElem?_concat_length]
    simp only [State.lastInit, hnone, howner] at hinits
    have hfresh : ¬ (EventLoopThread.create (buf s.name_ s.i)).pc.left ≤ 7 :=
      Nat.not_le.mpr (show 7 < 10 by omega)
    simp only [State.lastInit, hlast, if_neg hfresh]
    simpa using hinits

theorem finish (h : Inv s) (howner : s.owner = .round)
    (hi : ¬ (s.i : Int) < s.numThreads_.toInt) :
    Inv { s with
      inits := if s.numThreads_ = 0 ∧ s.cb then s.inits ++ [none] else s.inits
      owner := .returned } := by
  have hlength : s.threads_.length = s.i := by
    rw [h.length, howner]
    rfl
  have hnone : s.threads_[s.i]? = none := List.getElem?_eq_none (Nat.le_of_eq hlength)
  have hbound := h.bound
  have hinits := h.inits
  refine ⟨hlength, h.bound, fun _ => ?_, h.loops, fun k t ht => ?_, h.names, ?_⟩
  · rw [State.wanted] at hbound
    show s.i = s.numThreads_.toInt.toNat
    omega
  · have hk := (List.getElem?_eq_some_iff.mp ht).1
    have hsync := h.sync k t ht
    rw [hlength] at hk
    simpa [State.view, hk] using hsync
  · simp only [State.lastInit, hnone, howner] at hinits
    cases hcb : s.cb <;> by_cases hzero : s.numThreads_ = 0 <;>
      simp [State.lastInit, hnone, hcb, hzero, hinits]

theorem startLoop (h : Inv s) {t t' : EventLoopThread} {owner : OwnerPc}
    (ht : s.threads_[s.i]? = some t) (ht' : startLoop s.owner t = some (owner, t')) :
    Inv { s with
      owner
      threads_ := s.threads_.set s.i t'
      loops_ := if owner = .round then s.loops_ ++ [s.i] else s.loops_
      i := if owner = .round then s.i + 1 else s.i } := by
  have hview : s.view s.i = s.owner := if_neg (Nat.lt_irrefl _)
  have hsync := h.sync s.i t ht
  rw [hview] at hsync
  have hsync' := hsync.startLoop ht'
  have hspec := startLoop_spec ht'
  have hlength : s.threads_.length = s.i + 1 := by
    rw [h.length, hspec.starting]
    rfl
  have hleft := startLoop_pcLeft hsync ht'
  have hinits := h.inits
  simp only [State.lastInit, ht] at hinits
  have hself : (s.threads_.set s.i t')[s.i]? = some t' := List.getElem?_set_self (by omega)
  obtain hstarting | ⟨rfl, -⟩ := hspec.next
  · have hne : owner ≠ .round := fun heq => by simp [heq, OwnerPc.starting] at hstarting
    simp only [if_neg hne]
    refine ⟨?_, ?_, fun hreturned => ?_, h.loops, fun k u hu => ?_, fun k u hu => ?_, ?_⟩
    · rw [List.length_set, hlength, hstarting]
      rfl
    · rw [List.length_set]
      exact h.bound
    · simp [show owner = .returned from hreturned, OwnerPc.starting] at hstarting
    · obtain ⟨rfl, rfl⟩ | ⟨hk, hu⟩ := getElem?_set_cases hu
      · simpa [State.view] using hsync'
      · have hlt : k < s.i := (h.lt_length hu).resolve_right fun heq => hk heq.1
        simpa [State.view, hlt] using h.sync k u hu
    · obtain ⟨rfl, rfl⟩ | ⟨-, hu⟩ := getElem?_set_cases hu
      · rw [hspec.name]
        exact h.names _ _ ht
      · exact h.names k u hu
    · simp only [State.lastInit, hself, hleft]
      exact hinits
  · simp only [if_true]
    have hnone : (s.threads_.set s.i t')[s.i + 1]? = none :=
      List.getElem?_eq_none (by rw [List.length_set, hlength])
    have hread := hsync'.read rfl
    refine ⟨?_, ?_, by simp, ?_, fun k u hu => ?_, fun k u hu => ?_, ?_⟩
    · rw [List.length_set, hlength]
      rfl
    · rw [List.length_set]
      exact h.bound
    · rw [h.loops, List.range_succ]
    · have hlt : k < s.i + 1 := by
        simpa [hlength] using (List.getElem?_eq_some_iff.mp hu).1
      obtain ⟨rfl, rfl⟩ | ⟨hk, hu⟩ := getElem?_set_cases hu
      · simpa [State.view] using hsync'
      · have hlt' : k < s.i := (h.lt_length hu).resolve_right fun heq => hk heq.1
        simpa [State.view, hlt, hlt'] using h.sync k u hu
    · obtain ⟨rfl, rfl⟩ | ⟨-, hu⟩ := getElem?_set_cases hu
      · rw [hspec.name]
        exact h.names _ _ ht
      · exact h.names k u hu
    · have hcalled : t.pc.left ≤ 7 := by omega
      simp only [if_pos hcalled] at hinits
      simp only [State.lastInit, hnone]
      simpa [List.range_succ] using hinits

theorem thread (h : Inv s) {k : Nat} {t t' : EventLoopThread} (ht : s.threads_[k]? = some t)
    (ht' : threadFunc t = some t') :
    Inv { s with
      threads_ := s.threads_.set k t'
      owner := if t.pc = .notify ∧ k = s.i ∧ s.owner = .wait then .lock else s.owner
      inits := if t.pc = .init ∧ s.cb then s.inits ++ [some k] else s.inits } := by
  obtain ⟨hleft, hname⟩ := threadFunc_spec ht'
  have hsync := h.sync k t ht
  have hsync' := hsync.threadFunc ht'
  have hk := h.lt_length ht
  have hinits := h.inits
  have hstarting := starting_woken t.pc k s.i s.owner
  refine ⟨?_, ?_, fun hreturned => h.returned ?_, h.loops, fun j u hu => ?_, fun j u hu => ?_, ?_⟩
  · rw [List.length_set, hstarting]
    exact h.length
  · rw [List.length_set]
    exact h.bound
  · by_contra hne
    have hlock : (if t.pc = .notify ∧ k = s.i ∧ s.owner = .wait then OwnerPc.lock
      else s.owner) = .returned := hreturned
    split_ifs at hlock
    exact hne hlock
  · obtain ⟨rfl, rfl⟩ | ⟨hj, hu⟩ := getElem?_set_cases hu
    · by_cases hlt : j < s.i
      · simpa [State.view, hlt] using hsync'
      · have heq : j = s.i := by omega
        simpa [State.view, heq] using hsync'
    · have hother := h.sync j u hu
      by_cases hlt : j < s.i
      · simpa [State.view, hlt] using hother
      · have hne : k ≠ s.i := by
          have := h.lt_length hu
          omega
        simpa [State.view, hlt, hne] using hother
  · obtain ⟨rfl, rfl⟩ | ⟨-, hu⟩ := getElem?_set_cases hu
    · rw [hname]
      exact h.names _ _ ht
    · exact h.names j u hu
  · obtain hlt | ⟨rfl, hstart⟩ := hk
    · -- a thread that the owner is done with has made its call
      have hread := hsync.read (if_pos hlt)
      have hpc : t.pc ≠ .init := fun heq => by simp [heq, ThreadPc.left] at hread
      have hother : (s.threads_.set k t')[s.i]? = s.threads_[s.i]? :=
        List.getElem?_set_ne (Nat.ne_of_lt hlt)
      have hne : k ≠ s.i := Nat.ne_of_lt hlt
      simp only [State.lastInit, hother, hpc, hne, false_and, and_false, if_false]
      exact hinits
    · have hself : (s.threads_.set s.i t')[s.i]? = some t' :=
        List.getElem?_set_self (by rw [h.length, hstart]; exact Nat.lt_succ_self _)
      simp only [State.lastInit, ht] at hinits
      simp only [State.lastInit, hself]
      by_cases hpc : t.pc = .init
      · have hlast : t.pc.left = 8 := by
          rw [hpc]
          rfl
        have hbefore : ¬ t.pc.left ≤ 7 := by omega
        have hafter : t'.pc.left ≤ 7 := by omega
        simp only [if_neg hbefore, List.append_nil] at hinits
        cases hcb : s.cb <;> simp [hpc, hcb, hafter, hinits]
      · have hlast : t.pc.left ≠ 8 := by cases heq : t.pc <;> simp [heq, ThreadPc.left] at hpc ⊢
        have hiff : t'.pc.left ≤ 7 ↔ t.pc.left ≤ 7 := by omega
        simp only [hpc, false_and, if_false, hiff]
        exact hinits

theorem spurious (h : Inv s) (howner : s.owner = .wait) : Inv { s with owner := .lock } := by
  have hlength := h.length
  have hinits := h.inits
  rw [howner] at hlength
  refine ⟨hlength, h.bound, by simp, h.loops, fun k t ht => ?_, h.names, ?_⟩
  · have hsync := h.sync k t ht
    by_cases hlt : k < s.i
    · simpa [State.view, hlt] using hsync
    · simp only [State.view, if_neg hlt, howner] at hsync ⊢
      exact hsync.wake
  · simp only [State.lastInit, howner] at hinits ⊢
    simpa using hinits

theorem step (s : State) (a : Action) (s' : State) (h : Inv s) (hs : step s a = some s') :
    Inv s' := by
  cases Step.of_step hs with
  | create howner hi => exact h.create howner hi
  | finish howner hi => exact h.finish howner hi
  | startLoop _ ht ht' => exact h.startLoop ht ht'
  | thread ht ht' => exact h.thread ht ht'
  | spurious howner => exact h.spurious howner

end Inv

/-! ## A bound on the steps -/

/-- The steps that the owner has left in its round; `notified` tells whether the thread is past
its `notify_one`. -/
def OwnerPc.left (notified : Bool) : OwnerPc → Nat
  | .round => 1
  | .startThread => 7
  | .semWait => 6
  | .lock => if notified then 3 else 5
  | .test => if notified then 2 else 4
  | .wait => if notified then 1 else 3
  | .returned => 0

/-- The thread of the round `i` is past its `notify_one`. -/
def notified (threads_ : List EventLoopThread) (i : Nat) : Bool :=
  threads_[i]?.any fun t => t.pc.left ≤ 4

/-- A bound on the steps that are left. -/
def measure (s : State) : Nat :=
  (s.threads_.map fun t => t.pc.left).sum + s.owner.left (notified s.threads_ s.i) +
    17 * (s.wanted - s.threads_.length)

theorem sum_map_set {α : Type*} (f : α → Nat) {l : List α} {k : Nat} {x : α} (y : α)
    (h : l[k]? = some x) : ((l.set k y).map f).sum + f x = (l.map f).sum + f y := by
  induction l generalizing k with
  | nil => simp at h
  | cons a l ih =>
    cases k with
    | zero =>
      cases h
      simp only [List.set_cons_zero, List.map_cons, List.sum_cons]
      omega
    | succ k =>
      have hrest := ih h
      simp only [List.set_cons_succ, List.map_cons, List.sum_cons]
      omega

theorem OwnerPc.left_le (owner : OwnerPc) {notified notified' : Bool}
    (h : notified = true → notified' = true) : owner.left notified' ≤ owner.left notified := by
  cases notified with
  | false => cases notified' <;> cases owner <;> simp [OwnerPc.left]
  | true => rw [h rfl]

/-- The rounds of `startLoop` are paid for by the owner's own steps. -/
theorem startLoop_left {owner owner' : OwnerPc} {t t' : EventLoopThread}
    (h : startLoop owner t = some (owner', t')) (notified : Bool) :
    (if owner' = .round then 1 else owner'.left notified) < owner.left notified := by
  cases owner with
  | round | wait | returned => cases h
  | startThread =>
    cases h
    simp [OwnerPc.left]
  | semWait | lock =>
    simp only [startLoop, Option.ite_none_right_eq_some] at h
    obtain ⟨_, h⟩ := h
    cases h
    cases notified <;> simp [OwnerPc.left]
  | test =>
    simp only [startLoop, Option.some.injEq, Prod.mk.injEq] at h
    obtain ⟨rfl, rfl⟩ := h
    cases t.loop_ <;> cases notified <;> simp [OwnerPc.left]

theorem notified_eq {threads_ : List EventLoopThread} {i : Nat} {t : EventLoopThread}
    (ht : threads_[i]? = some t) : notified threads_ i = decide (t.pc.left ≤ 4) := by
  simp [notified, ht]

theorem measure_lt {s s' : State} (hlength : s'.threads_.length = s.threads_.length)
    (hwanted : s'.wanted = s.wanted)
    (h : (s'.threads_.map fun t => t.pc.left).sum + s'.owner.left (notified s'.threads_ s'.i) <
      (s.threads_.map fun t => t.pc.left).sum + s.owner.left (notified s.threads_ s.i)) :
    measure s' < measure s := by
  rw [measure, measure, hlength, hwanted]
  omega

theorem measure_create {s : State} (h : Inv s) (howner : s.owner = .round)
    (hi : (s.i : Int) < s.numThreads_.toInt) :
    measure { s with
      threads_ := s.threads_ ++ [EventLoopThread.create (buf s.name_ s.i)]
      owner := .startThread } < measure s := by
  have hlength := h.length
  rw [howner] at hlength
  have hlt : s.threads_.length < s.wanted := by
    simp only [State.wanted, OwnerPc.starting, Bool.toNat_false] at hlength ⊢
    omega
  have hsum : ((s.threads_ ++ [EventLoopThread.create (buf s.name_ s.i)]).map
      fun t => t.pc.left).sum = (s.threads_.map fun t => t.pc.left).sum + 10 := by
    simp [EventLoopThread.create, ThreadPc.left]
  simp only [measure, hsum, howner, OwnerPc.left, List.length_append, List.length_singleton]
  show _ + 10 + 7 + 17 * (s.wanted - (s.threads_.length + 1)) < _
  omega

theorem measure_startLoop {s : State} (h : Inv s) {t t' : EventLoopThread} {owner : OwnerPc}
    (ht : s.threads_[s.i]? = some t) (ht' : startLoop s.owner t = some (owner, t')) :
    measure { s with
      owner
      threads_ := s.threads_.set s.i t'
      loops_ := if owner = .round then s.loops_ ++ [s.i] else s.loops_
      i := if owner = .round then s.i + 1 else s.i } < measure s := by
  have hview : s.view s.i = s.owner := if_neg (Nat.lt_irrefl _)
  have hsync := h.sync s.i t ht
  rw [hview] at hsync
  have hleft := startLoop_pcLeft hsync ht'
  have hsum := sum_map_set (fun t => t.pc.left) t' ht
  have hself : (s.threads_.set s.i t')[s.i]? = some t' :=
    List.getElem?_set_self (List.getElem?_eq_some_iff.mp ht).1
  have hlt := startLoop_left ht' (notified s.threads_ s.i)
  rw [notified_eq ht] at hlt
  refine measure_lt (List.length_set ..) rfl ?_
  rw [notified_eq ht]
  by_cases hread : owner = .round
  · subst hread
    simp only [OwnerPc.left, if_true] at hlt ⊢
    omega
  · simp only [if_neg hread, notified_eq hself, hleft] at hlt hsum ⊢
    omega

/-- A step of a thread never makes the owner's round longer. -/
theorem left_thread {threads_ : List EventLoopThread} {i k : Nat} {t t' : EventLoopThread}
    (owner : OwnerPc) (ht : threads_[k]? = some t) (ht' : threadFunc t = some t') :
    (if t.pc = .notify ∧ k = i ∧ owner = .wait then OwnerPc.lock else owner).left
      (notified (threads_.set k t') i) ≤ owner.left (notified threads_ i) := by
  obtain rfl | hne := eq_or_ne k i
  · have hleft := (threadFunc_spec ht').1
    have hself : (threads_.set k t')[k]? = some t' :=
      List.getElem?_set_self (List.getElem?_eq_some_iff.mp ht).1
    rw [notified_eq ht, notified_eq hself]
    split_ifs with hwoken
    · obtain ⟨hpc, -, rfl⟩ := hwoken
      have hnow : t.pc.left = 5 := by
        rw [hpc]
        rfl
      have hbefore : ¬ t.pc.left ≤ 4 := by omega
      have hafter : t'.pc.left ≤ 4 := by omega
      simp [OwnerPc.left, hbefore, hafter]
    · apply OwnerPc.left_le
      simp only [decide_eq_true_eq]
      omega
  · have hother : (threads_.set k t')[i]? = threads_[i]? := List.getElem?_set_ne hne
    simp only [notified, hother, hne, false_and, and_false, if_false]
    exact Nat.le_refl _

theorem measure_thread {s : State} {k : Nat} {t t' : EventLoopThread}
    (ht : s.threads_[k]? = some t) (ht' : threadFunc t = some t') :
    measure { s with
      threads_ := s.threads_.set k t'
      owner := if t.pc = .notify ∧ k = s.i ∧ s.owner = .wait then .lock else s.owner
      inits := if t.pc = .init ∧ s.cb then s.inits ++ [some k] else s.inits } < measure s := by
  have hleft := (threadFunc_spec ht').1
  have hsum := sum_map_set (fun t => t.pc.left) t' ht
  have howner := left_thread (i := s.i) s.owner ht ht'
  refine measure_lt (List.length_set ..) rfl ?_
  simp only at hsum ⊢
  omega

/-- A spurious wakeup makes the owner lock and test once more. -/
theorem measure_step {s s' : State} {a : Action} (h : Inv s) (hs : step s a = some s') :
    measure s' < measure s + if a == .spurious then 3 else 0 := by
  cases Step.of_step hs with
  | create howner hi => exact measure_create h howner hi
  | finish howner hi =>
    refine measure_lt rfl rfl ?_
    simp [howner, OwnerPc.left]
  | startLoop _ ht ht' => exact measure_startLoop h ht ht'
  | thread ht ht' => exact measure_thread ht ht'
  | spurious howner =>
    have hbound : OwnerPc.left (notified s.threads_ s.i) .lock =
        OwnerPc.left (notified s.threads_ s.i) .wait + 2 := by
      cases notified s.threads_ s.i <;> rfl
    simp only [measure, howner, hbound, State.wanted, beq_self_eq_true, if_true]
    omega

theorem measure_start (name_ : List UInt8) (numThreads_ : Int32) (cb : Bool) :
    measure (start name_ numThreads_ cb) = 17 * numThreads_.toInt.toNat + 1 := by
  show 0 + 1 + 17 * (numThreads_.toInt.toNat - 0) = _
  omega

/-! ## A loop that ends too early -/

/-- The condition on a step: `loop()` returns when `startLoop` has returned the loop. -/
def InTime (s : State) : Action → Prop
  | .thread k => (s.threads_[k]?.any fun t => t.pc = .looping) = true → k < s.loops_.length
  | _ => True

instance (s : State) : ∀ a, Decidable (InTime s a)
  | .thread _ => inferInstanceAs (Decidable (_ → _))
  | .owner | .spurious => .isTrue trivial

/-- The loop of the round has not returned. -/
def Running (s : State) : Prop := ∀ t, s.threads_[s.i]? = some t → 3 ≤ t.pc.left

theorem Running.step {s s' : State} {a : Action} (h : Inv s) (hrunning : Running s)
    (ha : InTime s a) (hs : step s a = some s') : Running s' := by
  intro u hu
  cases Step.of_step hs with
  | create howner hi =>
    have hlength := h.length
    rw [howner] at hlength
    obtain ⟨hk, -⟩ | ⟨-, rfl⟩ := getElem?_concat_cases hu
    · exact absurd (hlength ▸ hk) (Nat.lt_irrefl _)
    · exact show 3 ≤ 10 by omega
  | finish => exact hrunning u hu
  | spurious => exact hrunning u hu
  | @startLoop t t' owner _ ht ht' =>
    have hview : s.view s.i = s.owner := if_neg (Nat.lt_irrefl _)
    have hsync := h.sync s.i t ht
    rw [hview] at hsync
    by_cases hread : owner = .round
    · -- the next thread is not there yet
      have hlength := h.length
      rw [(startLoop_spec ht').starting] at hlength
      have hlt := (List.getElem?_eq_some_iff.mp hu).1
      simp only [hread, if_true, List.length_set, hlength, Bool.toNat_true] at hlt
      exact absurd hlt (Nat.lt_irrefl _)
    · simp only [if_neg hread] at hu
      obtain ⟨-, rfl⟩ | ⟨hne, -⟩ := getElem?_set_cases hu
      · rw [startLoop_pcLeft hsync ht']
        exact hrunning t ht
      · exact absurd rfl hne
  | @thread k t t' ht ht' =>
    have hu' : (s.threads_.set k t')[s.i]? = some u := hu
    obtain ⟨rfl, rfl⟩ | ⟨-, hu⟩ := getElem?_set_cases hu'
    · have hleft := (threadFunc_spec ht').1
      have hbound := hrunning t ht
      have hpc : t.pc ≠ .looping := by
        intro hpc
        have hlt := ha (by simp [ht, hpc])
        rw [h.loops, List.length_range] at hlt
        exact Nat.lt_irrefl _ hlt
      have hne : t.pc.left ≠ 3 := by cases heq : t.pc <;> simp [heq, ThreadPc.left] at hpc ⊢
      omega
    · exact hrunning u hu

theorem exists_threadFunc {t : EventLoopThread} (hstarted : t.pc ≠ .notStarted)
    (hended : t.pc ≠ .ended) (hfree : t.pc.holds = true ∨ t.mutex_ = none) :
    ∃ t', threadFunc t = some t' := by
  cases hpc : t.pc with
  | notStarted => exact absurd hpc hstarted
  | ended => exact absurd hpc hended
  | lock | clearLock =>
    have hnone : t.mutex_ = none := hfree.resolve_left (by simp [hpc, ThreadPc.holds])
    simp [threadFunc, hpc, hnone]
  | body | post | init | store | notify | unlock | looping | clear => simp [threadFunc, hpc]

/-- A lock that the owner does not hold is free, or the thread can go on. -/
theorem Sync.free {owner : OwnerPc} {t : EventLoopThread} (h : Sync owner t)
    (howner : owner ≠ .test) : t.pc.holds = true ∨ t.mutex_ = none := by
  cases hm : t.mutex_ with
  | none => exact .inr rfl
  | some holder =>
    cases holder with
    | owner => exact absurd (h.held_owner.mp hm) howner
    | thread => exact .inl (h.held_thread.mp hm)

/-- The thread of the round can go on, when it is neither at its start nor at its end. -/
theorem exists_thread_step {s : State} {t : EventLoopThread} (ht : s.threads_[s.i]? = some t)
    (hsync : Sync s.owner t) (hbusy : 3 < t.pc.left) (hstart : s.owner ≠ .startThread)
    (howner : s.owner ≠ .test) : ∃ a, a ≠ .spurious ∧ InTime s a ∧ step s a ≠ none := by
  have hstarted : t.pc ≠ .notStarted := fun hpc => hstart (hsync.unstarted.mp hpc)
  have hended : t.pc ≠ .ended := fun hpc => by simp [hpc, ThreadPc.left] at hbusy
  have hlooping : t.pc ≠ .looping := fun hpc => by simp [hpc, ThreadPc.left] at hbusy
  obtain ⟨t', ht'⟩ := exists_threadFunc hstarted hended (hsync.free howner)
  refine ⟨.thread s.i, by simp, ?_, by simp [step, ht, ht']⟩
  simp [InTime, ht, hlooping]

/-- While the loop of the round runs, somebody can go on until `start` has returned. -/
theorem exists_step {s : State} (h : Inv s) (hrunning : Running s) (howner : s.owner ≠ .returned) :
    ∃ a, a ≠ .spurious ∧ InTime s a ∧ step s a ≠ none := by
  by_cases hround : s.owner = .round
  · by_cases hi : (s.i : Int) < s.numThreads_.toInt
    · exact ⟨.owner, by simp, trivial, by simp [step, hround, hi]⟩
    · exact ⟨.owner, by simp, trivial, by simp [step, hround, hi]⟩
  · have hstarting : s.owner.starting = true := by
      cases hpc : s.owner <;> simp [hpc, OwnerPc.starting] at hround howner ⊢
    obtain ⟨t, ht⟩ : ∃ t, s.threads_[s.i]? = some t := by
      have hlength := h.length
      rw [hstarting] at hlength
      exact ⟨_, List.getElem?_eq_getElem (by rw [hlength]; exact Nat.lt_succ_self _)⟩
    have hsync := h.sync s.i t ht
    rw [show s.view s.i = s.owner from if_neg (Nat.lt_irrefl _)] at hsync
    have hleft := hrunning t ht
    have hgo : startLoop s.owner t ≠ none →
        ∃ a, a ≠ .spurious ∧ InTime s a ∧ step s a ≠ none := by
      intro hgo
      obtain ⟨r, hr⟩ := Option.ne_none_iff_exists'.mp hgo
      exact ⟨.owner, by simp, trivial, by simp [step, hround, ht, hr]⟩
    cases hpc : s.owner with
    | round => exact absurd hpc hround
    | returned => exact absurd hpc howner
    | startThread | test => exact hgo (by simp [hpc, startLoop])
    | semWait =>
      by_cases hposted : t.pc.left ≤ 8
      · have hup : 0 < t.sem := by
          rw [hsync.sem, if_pos ⟨hpc, hposted⟩]
          exact Nat.one_pos
        exact hgo (by simp [hpc, startLoop, hup])
      · exact exists_thread_step ht hsync (by omega) (by simp [hpc]) (by simp [hpc])
    | lock =>
      by_cases hfree : t.mutex_ = none
      · exact hgo (by simp [hpc, startLoop, hfree])
      · have hholds := (hsync.free (by simp [hpc])).resolve_right hfree
        refine exists_thread_step ht hsync ?_ (by simp [hpc]) (by simp [hpc])
        cases hp : t.pc <;> simp [hp, ThreadPc.holds, ThreadPc.left] at hholds hleft ⊢
    | wait =>
      refine exists_thread_step ht hsync ?_ (by simp [hpc]) (by simp [hpc])
      obtain hcoming | hended := hsync.waiting hpc
      · omega
      · simp [hended, ThreadPc.left] at hleft

/-- The loop that `startLoop` waits for is over. -/
def Lost (s : State) : Prop :=
  s.owner.starting = true ∧ ∃ t, s.threads_[s.i]? = some t ∧ t.pc = .ended

theorem Lost.step {s s' : State} {a : Action} (h : Inv s) (hlost : Lost s)
    (hs : step s a = some s') : Lost s' := by
  obtain ⟨hstarting, t, ht, hpc⟩ := hlost
  have hsync := h.sync s.i t ht
  rw [show s.view s.i = s.owner from if_neg (Nat.lt_irrefl _)] at hsync
  cases Step.of_step hs with
  | create howner => simp [howner, OwnerPc.starting] at hstarting
  | finish howner => simp [howner, OwnerPc.starting] at hstarting
  | spurious => exact ⟨rfl, t, ht, hpc⟩
  | @startLoop u u' owner _ hu hu' =>
    cases ht.symm.trans hu
    have hspec := startLoop_spec hu'
    have hnull : ¬ t.loop_ = true := by simp [hsync.loop, hpc, ThreadPc.left]
    have hnext : owner.starting = true := hspec.next.resolve_right fun hread => hnull hread.2
    have hround : owner ≠ .round := fun heq => by simp [heq, OwnerPc.starting] at hnext
    have hstart : s.owner ≠ .startThread := fun heq => by
      have hunstarted := hsync.unstarted.mpr heq
      rw [hpc] at hunstarted
      cases hunstarted
    refine ⟨hnext, u', ?_, ?_⟩
    · simp only [if_neg hround]
      exact List.getElem?_set_self (List.getElem?_eq_some_iff.mp ht).1
    · rw [hspec.pc, if_neg hstart, hpc]
  | @thread k u u' hu hu' =>
    have hk : k ≠ s.i := by
      rintro rfl
      cases ht.symm.trans hu
      simp [threadFunc, hpc] at hu'
    refine ⟨?_, t, ?_, hpc⟩
    · simp only [hk, false_and, and_false, if_false]
      exact hstarting
    · exact (List.getElem?_set_ne hk).trans ht

/-- What `start` has done when it returns. -/
structure Started (name_ : List UInt8) (numThreads_ : Int32) (cb : Bool) (s : State) : Prop where
  loops : s.loops_ = List.range numThreads_.toInt.toNat
  threads : ∀ k < numThreads_.toInt.toNat, ∃ t, s.threads_[k]? = some t ∧ t.tid_ = true ∧
    t.name_ = name_.takeWhile (· ≠ 0) ++ decimal k
  inits : s.inits = if cb then
    if numThreads_ = 0 then [none] else (List.range numThreads_.toInt.toNat).map some else []

theorem buf_eq (name_ : List UInt8) {i : Nat} (hi : i < 2 ^ 31) :
    buf name_ i = name_.takeWhile (· ≠ 0) ++ decimal i := by
  have hname := (List.takeWhile_prefix (l := name_) (· ≠ 0)).length_le
  have hnumber := decimal_length_le (k := i) (d := 10) (by omega) (by omega)
  rw [buf, snprintf, List.take_of_length_le]
  rw [List.length_append]
  omega

theorem Inv.started {s : State} (h : Inv s) (howner : s.owner = .returned) :
    Started s.name_ s.numThreads_ s.cb s := by
  have hi := h.returned howner
  have hlength := h.length
  rw [howner, hi] at hlength
  have hwanted : s.wanted < 2 ^ 31 := by
    have hrange := s.numThreads_.toInt_lt
    simp only [State.wanted]
    omega
  rw [State.wanted] at hi hlength hwanted
  refine ⟨hi ▸ h.loops, fun k hk => ?_, ?_⟩
  · have hlt : k < s.threads_.length := by
      rw [hlength]
      exact hk
    have ht := List.getElem?_eq_getElem hlt
    have hsync := h.sync k _ ht
    rw [show s.view k = .round from if_pos (hi ▸ hk)] at hsync
    refine ⟨_, ht, hsync.tid_of_posted (by simp) (by simp), ?_⟩
    rw [h.names k _ ht, buf_eq s.name_ (Nat.lt_trans hk hwanted)]
  · have hnone : s.threads_[s.i]? = none :=
      List.getElem?_eq_none (by rw [hlength, hi]; exact Nat.le_refl _)
    have hinits := h.inits
    simp only [State.lastInit, hnone, howner, true_and] at hinits
    rw [hinits, hi]
    by_cases hzero : s.numThreads_ = 0
    · simp [hzero]
    · simp [hzero]

/-- **The pool starts all its loops.** For any name, any number of threads, with or without a
callback, in whatever order the threads take their steps: `start` takes a bounded number of
steps, counting the spurious wakeups; a loop that it has got has been initialised, once and in
order; while no loop ends before `startLoop` has returned it, somebody can always go on until
`start` has returned; then it has every loop, and the `tid_` of every thread is known. A loop
that has ended before leaves `start` waiting for good. -/
theorem start_returns (name_ : List UInt8) (numThreads_ : Int32) (cb : Bool) (as : List Action)
    (s : State) (hrun : run step (start name_ numThreads_ cb) as = some s) :
    as.length ≤ 17 * numThreads_.toInt.toNat + 1 + 3 * as.count .spurious ∧
      (cb = true → s.loops_.map some <+: s.inits) ∧
      (Guarded step InTime (start name_ numThreads_ cb) as → s.owner ≠ .returned →
        ∃ a, a ≠ .spurious ∧ InTime s a ∧ step s a ≠ none) ∧
      (s.owner = .returned → Started name_ numThreads_ cb s) ∧
      ∀ (k : Nat) (s' t : State), step s (.thread k) = some s' → s.loops_.length ≤ k →
        (s'.threads_[k]?.any fun t => t.pc = .ended) = true → Reachable step s' t →
        t.owner ≠ .returned := by
  have hinv : Inv s := reachable_invariant Inv.step (inv_start name_ numThreads_ cb) ⟨as, hrun⟩
  obtain ⟨hname, hnum, hcb⟩ : s.name_ = name_ ∧ s.numThreads_ = numThreads_ ∧ s.cb = cb := by
    simpa [State.settings, start] using reachable_settings ⟨as, hrun⟩
  have hstarted := hinv.started
  rw [hname, hnum, hcb] at hstarted
  refine ⟨?_, fun hcalls => ?_, fun hguard howner => ?_, hstarted, ?_⟩
  · have hlength := run_length_le_add (I := Inv) (μ := measure) (p := (· == .spurious))
      (fun s a s' h hs => ⟨h.step s a s' hs, measure_step h hs⟩) (inv_start name_ numThreads_ cb)
      hrun
    rw [measure_start] at hlength
    rw [List.count]
    omega
  · rw [hinv.inits, if_pos (hcb.trans hcalls), hinv.loops]
    exact List.prefix_append _ _
  · have hstart : Inv (start name_ numThreads_ cb) ∧ Running (start name_ numThreads_ cb) :=
      ⟨inv_start name_ numThreads_ cb, fun t ht => by cases ht⟩
    obtain ⟨-, hrunning⟩ := run_invariant (I := fun s => Inv s ∧ Running s)
      (fun s a s' h ha hs => ⟨h.1.step s a s' hs, h.2.step h.1 ha hs⟩) hstart hguard hrun
    exact exists_step hinv hrunning howner
  · intro k s' t hs hk hended hreach hreturned
    have hlost : Lost s' := by
      cases Step.of_step hs with
      | @thread _ u u' hu hu' =>
        rw [hinv.loops, List.length_range] at hk
        obtain ⟨rfl, hstarting⟩ := (hinv.lt_length hu).resolve_left (Nat.not_lt.mpr hk)
        have hself : (s.threads_.set s.i u')[s.i]? = some u' :=
          List.getElem?_set_self (List.getElem?_eq_some_iff.mp hu).1
        refine ⟨(starting_woken u.pc s.i s.i s.owner).trans hstarting, u', hself, ?_⟩
        simpa [hself] using hended
    obtain ⟨-, hstarting, -⟩ := reachable_invariant (I := fun s => Inv s ∧ Lost s)
      (fun s a s' h hs => ⟨h.1.step s a s' hs, h.2.step h.1 hs⟩) ⟨hinv.step s _ s' hs, hlost⟩ hreach
    rw [hreturned] at hstarting
    cases hstarting

/-- The owner sleeps until the first loop is there; the second one is there before it looks. -/
def twoThreads : List Action :=
  [.owner, .owner, .thread 0, .thread 0, .owner, .owner, .owner, .thread 0, .thread 0, .thread 0,
    .thread 0, .thread 0, .owner, .owner, .owner, .owner, .thread 1, .thread 1, .thread 1,
    .thread 1, .thread 1, .thread 1, .thread 1, .owner, .owner, .owner, .owner]

/-- The loop returns before the owner has taken the lock, and its thread is about to clear
`loop_`. -/
def endsEarly : List Action :=
  [.owner, .owner, .thread 0, .thread 0, .thread 0, .thread 0, .thread 0, .thread 0, .thread 0,
    .thread 0, .thread 0, .owner]

theorem start_returns_twoThreads :
    (∃ s, run step (start [] 2 true) twoThreads = some s ∧ s.owner = .returned ∧
      s.loops_ = [0, 1] ∧ s.inits = [some 0, some 1]) ∧
    ∃ s s', run step (start [] 1 false) endsEarly = some s ∧ step s (.thread 0) = some s' ∧
      ∀ t, Reachable step s' t → t.owner ≠ .returned := by
  constructor
  · have hend : (run step (start [] 2 true) twoThreads).map (·.owner) = some .returned := by
      decide +kernel
    obtain ⟨s, hrun, howner⟩ := Option.map_eq_some_iff.mp hend
    obtain ⟨_, _, _, hstarted, _⟩ := start_returns [] 2 true twoThreads s hrun
    have htwo : List.range (2 : Int32).toInt.toNat = [0, 1] := by decide +kernel
    have hpool := hstarted howner
    refine ⟨s, hrun, howner, hpool.loops.trans htwo, hpool.inits.trans ?_⟩
    rw [htwo]
    rfl
  · have hend : (run step (start [] 1 false) (endsEarly ++ [.thread 0])).map
        (fun s => (s.loops_, s.threads_[0]?.any fun t => t.pc = .ended)) = some ([], true) := by
      decide +kernel
    obtain ⟨s', hrun, hpair⟩ := Option.map_eq_some_iff.mp hend
    obtain ⟨hloops, hended⟩ := Prod.mk.inj hpair
    rw [run_append, Option.bind_eq_some_iff] at hrun
    obtain ⟨s, hrun, hlast⟩ := hrun
    obtain ⟨s'', hstep, hnil⟩ := run_cons_eq_some.mp hlast
    cases hnil
    obtain ⟨_, _, _, _, hearly⟩ := start_returns [] 1 false endsEarly s hrun
    have hkept : s'.loops_ = s.loops_ := by
      cases Step.of_step hstep
      rfl
    refine ⟨s, s', hrun, hstep, fun t => hearly 0 s' t hstep ?_ hended⟩
    rw [← hkept, hloops]
    exact Nat.le_refl 0

end CppInOne.Mymuduo.EventLoopThreadPool
