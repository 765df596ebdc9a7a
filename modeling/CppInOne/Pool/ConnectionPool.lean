import Mathlib.Algebra.Group.Int.Defs
import CppInOne.Lib.Transition

/-!
# The connection pool of `ConnectionPool.h`

A pool whose constructor has read its configuration, its producer and scanner threads, and the
threads of the clients, which are named by `C`. A step is a section run with `_queueMutex`, or
the end of a wait without a notification. What MySQL answers does not matter to the pool. The
clock is `long` and does not overflow here; the limit of the scanner is an `int` product and may.

## Main definitions

- `State`, `step` — the pool, its threads and what they do
- `produceConnectionTask`, `getConnection`, `deleter`, `scannerConnectionTask` — the sections of
  the source
-/

namespace CppInOne.ConnectionPool
open Function

/-- A `Connection` object, which is named by its number in the order of construction. -/
structure Connection where
  id : Nat
  _alivetime : Int
  deriving DecidableEq, Repr

inductive Thread where
  /-- before the lock of `_queueMutex` -/
  | ready
  /-- asleep in `cv` -/
  | waiting
  /-- awake in `cv`, without the mutex -/
  | woken
  /-- the same, and the time of `wait_for` is over -/
  | timedOut
  deriving DecidableEq, Repr

structure State (C : Type*) where
  _initSize : Int32
  _maxSize : Int32
  _maxIdleTime : Int32
  _connectionQue : List Connection
  _connectionCnt : Int32
  /-- The connections of the `shared_ptr`s that are in use, with their owners. -/
  held : List (C × Connection)
  /-- The number of connections constructed so far. -/
  created : Nat
  destroyed : List Nat
  producer : Thread
  clients : C → Thread
  /-- What `clock()` has returned last. -/
  clock : Int

variable {C : Type*}

namespace State

/-! ## The functions of the source -/

/-- A new connection that has been refreshed at `now` is pushed and counted. -/
def addConnection (s : State C) (now : Int) : State C :=
  { s with
    _connectionQue := s._connectionQue ++ [⟨s.created, now⟩]
    _connectionCnt := s._connectionCnt + 1
    created := s.created + 1
    clock := now }

def Thread.notified : Thread → Thread
  | .waiting => .woken
  | t => t

/-- `cv.notify_all()` -/
def notify_all (s : State C) : State C :=
  { s with
    producer := Thread.notified s.producer
    clients := fun c => Thread.notified (s.clients c) }

/-- The constructor; `readings i` is what `clock()` returns for the `i`-th connection. -/
def constructed (C : Type*) (initSize maxSize maxIdleTime : Int32) (readings : Nat → Int) :
    State C :=
  (List.range initSize.toInt.toNat).foldl (fun s i => s.addConnection (readings i))
    { _initSize := initSize
      _maxSize := maxSize
      _maxIdleTime := maxIdleTime
      _connectionQue := []
      _connectionCnt := 0
      held := []
      created := 0
      destroyed := []
      producer := .ready
      clients := fun _ => .ready
      clock := 0 }

/-- **Loop rule** of the constructor, by induction on its rounds. -/
theorem constructed_induction {initSize maxSize maxIdleTime : Int32} {readings : Nat → Int}
    {P : Nat → State C → Prop}
    (empty : P 0 ⟨initSize, maxSize, maxIdleTime, [], 0, [], 0, [], .ready, fun _ => .ready, 0⟩)
    (add : ∀ n < initSize.toInt.toNat, ∀ s, P n s → P (n + 1) (s.addConnection (readings n))) :
    P initSize.toInt.toNat (constructed C initSize maxSize maxIdleTime readings) := by
  rw [constructed]
  suffices h : ∀ n ≤ initSize.toInt.toNat, P n ((List.range n).foldl
      (fun s i => s.addConnection (readings i))
      ⟨initSize, maxSize, maxIdleTime, [], 0, [], 0, [], .ready, fun _ => .ready, 0⟩) from
    h _ (Nat.le_refl _)
  intro n
  induction n with
  | zero => exact fun _ => empty
  | succ n ih =>
    intro hn
    rw [List.range_succ, List.foldl_append]
    exact add n hn _ (ih (Nat.le_of_succ_le hn))

/-- The producer with the mutex: it waits, or does an iteration. -/
def produceConnectionTask (s : State C) (now : Int) : State C :=
  if s._connectionQue ≠ [] then { s with producer := .waiting }
  else if s._connectionCnt < s._maxSize then
    { (s.addConnection now).notify_all with producer := .ready }
  else { s.notify_all with producer := .ready }

/-- A client with the mutex, at the test of the loop or behind `wait_for`; it returns a pointer
unless it waits. -/
def getConnection [DecidableEq C] (s : State C) (c : C) :
    State C × Option (Option Connection) :=
  match s._connectionQue with
  | [] =>
    if s.clients c = .timedOut then
      ({ s with clients := update s.clients c .ready }, some none)
    else ({ s with clients := update s.clients c .waiting }, none)
  | p :: rest =>
    ({ s with
      _connectionQue := rest
      held := (c, p) :: s.held
      clients := update s.clients c .ready }.notify_all, some (some p))

/-- The deleter of the `shared_ptr`, in the section of its mutex. -/
def deleter [DecidableEq C] (s : State C) (c : C) (pcon : Connection) (now : Int) : State C :=
  { s with
    _connectionQue := s._connectionQue ++ [{ pcon with _alivetime := now }]
    held := s.held.erase (c, pcon)
    clock := now }

/-- `_maxIdleTime * 1000`, an `int` that wraps around. -/
def idleLimit (s : State C) : Int := (s._maxIdleTime * 1000).toInt

/-- A pass of the scanner over the queue, with what `clock()` returns at each test. It is
undefined if the queue is empty where `front()` is called. -/
def scannerConnectionTask (s : State C) : List Int → Option (State C)
  | [] => if s._connectionCnt > s._initSize then none else some s
  | now :: readings =>
    if s._connectionCnt > s._initSize then
      match s._connectionQue with
      | [] => none
      | p :: rest =>
        if now - p._alivetime > s.idleLimit then
          { s with
            _connectionQue := rest
            _connectionCnt := s._connectionCnt - 1
            destroyed := p.id :: s.destroyed
            clock := now }.scannerConnectionTask readings
        else some { s with clock := now }
    else some s

/-- The connection in front, which is `p`, is destroyed. -/
def destroyFront (s : State C) (p : Connection) (rest : List Connection) (now : Int) : State C :=
  { s with
    _connectionQue := rest
    _connectionCnt := s._connectionCnt - 1
    destroyed := p.id :: s.destroyed
    clock := now }

@[simp] theorem idleLimit_destroyFront (s : State C) (p : Connection) (rest : List Connection)
    (now : Int) : (s.destroyFront p rest now).idleLimit = s.idleLimit := rfl

/-- Where the product fits it is the product. -/
theorem idleLimit_eq (s : State C) (hlow : -2 ^ 31 ≤ s._maxIdleTime.toInt * 1000)
    (hhigh : s._maxIdleTime.toInt * 1000 < 2 ^ 31) :
    s.idleLimit = s._maxIdleTime.toInt * 1000 := by
  rw [idleLimit, Int32.toInt_mul]
  exact Int.bmod_eq_of_le (by simpa using hlow) (by simpa using hhigh)

/-- **Loop rule** of the scanner, by induction on its tests. -/
theorem scan_invariant {P : State C → Prop} {s s' : State C} {readings : List Int}
    (destroy : ∀ s p rest now, s._connectionQue = p :: rest → P s → P (s.destroyFront p rest now))
    (keep : ∀ s now, P s → P { s with clock := now }) (h : P s)
    (hs : s.scannerConnectionTask readings = some s') : P s' := by
  induction readings generalizing s with
  | nil =>
    simp only [scannerConnectionTask, Option.ite_none_left_eq_some, Option.some.injEq] at hs
    obtain ⟨-, rfl⟩ := hs
    exact h
  | cons now readings ih =>
    simp only [scannerConnectionTask] at hs
    split at hs
    · split at hs
      · cases hs
      · rename_i p rest hqueue
        split at hs
        · exact ih (destroy s p rest now hqueue h) hs
        · cases hs
          exact keep s now h
    · cases hs
      exact h

end State

/-! ## Steps -/

inductive Action (C : Type*) where
  | produce (now : Int)
  | client (c : C)
  /-- The time of `wait_for` is over. -/
  | timeout (c : C)
  /-- The last `shared_ptr` to this connection ends. -/
  | release (c : C) (pcon : Connection) (now : Int)
  | scan (readings : List Int)
  /-- A client or the producer wakes up for no reason. -/
  | spurious (thread : Option C)
  deriving DecidableEq, Repr

def step [DecidableEq C] (s : State C) : Action C → Option (State C)
  | .produce now =>
    match s.producer with
    | .ready | .woken => some (s.produceConnectionTask now)
    | .waiting | .timedOut => none
  | .client c =>
    match s.clients c with
    | .ready | .woken | .timedOut => some (s.getConnection c).1
    | .waiting => none
  | .timeout c =>
    if s.clients c = .waiting then
      some { s with clients := update s.clients c .timedOut }
    else none
  | .release c pcon now => if (c, pcon) ∈ s.held then some (s.deleter c pcon now) else none
  | .scan readings => s.scannerConnectionTask readings
  | .spurious none =>
    if s.producer = .waiting then some { s with producer := .woken } else none
  | .spurious (some c) =>
    if s.clients c = .waiting then some { s with clients := update s.clients c .woken } else none

variable [DecidableEq C] {s s' : State C} {a : Action C}

/-- The steps as a relation, to take a run apart by its actions. -/
inductive Step (s : State C) : Action C → State C → Prop
  | produce (now : Int) (h : s.producer = .ready ∨ s.producer = .woken) :
    Step s (.produce now) (s.produceConnectionTask now)
  | client {c : C} (h : s.clients c ≠ .waiting) : Step s (.client c) (s.getConnection c).1
  | timeout {c : C} (h : s.clients c = .waiting) :
    Step s (.timeout c) { s with clients := update s.clients c .timedOut }
  | release {c : C} {pcon : Connection} (now : Int) (h : (c, pcon) ∈ s.held) :
    Step s (.release c pcon now) (s.deleter c pcon now)
  | scan {readings : List Int} {s' : State C} (h : s.scannerConnectionTask readings = some s') :
    Step s (.scan readings) s'
  | producerWakes (h : s.producer = .waiting) :
    Step s (.spurious none) { s with producer := .woken }
  | clientWakes {c : C} (h : s.clients c = .waiting) :
    Step s (.spurious (some c)) { s with clients := update s.clients c .woken }

theorem step_cases (hs : step s a = some s') : Step s a s' := by
  cases a with
  | produce now =>
    simp only [step] at hs
    split at hs
    · rename_i hready
      cases hs
      exact .produce now (.inl hready)
    · rename_i hwoken
      cases hs
      exact .produce now (.inr hwoken)
    all_goals cases hs
  | client c =>
    cases hc : s.clients c with
    | waiting => simp [step, hc] at hs
    | ready | woken | timedOut =>
      simp only [step, hc, Option.some.injEq] at hs
      subst hs
      exact .client (by simp [hc])
  | timeout c =>
    obtain ⟨hwaiting, hs⟩ := Option.ite_none_right_eq_some.mp hs
    cases hs
    exact .timeout hwaiting
  | release c pcon now =>
    obtain ⟨hheld, hs⟩ := Option.ite_none_right_eq_some.mp hs
    cases hs
    exact .release now hheld
  | scan readings => exact .scan hs
  | spurious thread =>
    cases thread with
    | none =>
      obtain ⟨hwaiting, hs⟩ := Option.ite_none_right_eq_some.mp hs
      cases hs
      exact .producerWakes hwaiting
    | some c =>
      obtain ⟨hwaiting, hs⟩ := Option.ite_none_right_eq_some.mp hs
      cases hs
      exact .clientWakes hwaiting

end CppInOne.ConnectionPool
