import CppInOne.Pool.ConnectionConservation

/-!
# The idle scanner and the empty queue

The loop of the scanner is guarded by `_connectionCnt`, which also counts the connections in the
hands of clients, and calls `front()` without a look at the queue. It finds the queue empty exactly
when the clients hold more than `_initSize` connections and the pass destroys all the others.

## Main definitions

- `frontQueues` — the queues on which a pass calls `front()`
- `AllIdle` — every connection is over the limit when its turn comes

## Main results

- `fronts_nonempty_iff` — when all calls of `front()` in a run are on connections
-/

namespace CppInOne.ConnectionPool
open Function Transition

variable {C : Type*} {s s' : State C} {now : Int}

namespace State

/-- The queue at each `front()` of a pass, in order; `pop()` is always called on the same queue
behind it. A pass without a further reading is followed up to the `front()` that needs one. -/
def frontQueues (s : State C) : List Int → List (List Connection)
  | [] => if s._connectionCnt > s._initSize then [s._connectionQue] else []
  | now :: readings =>
    if s._connectionCnt > s._initSize then
      s._connectionQue ::
        match s._connectionQue with
        | [] => []
        | p :: rest =>
          if now - p._alivetime > s.idleLimit then
            (s.destroyFront p rest now).frontQueues readings
          else []
    else []

end State

open State

/-- The clock finds every connection over the limit when its turn comes. -/
def AllIdle (limit : Int) : List Connection → List Int → Prop
  | [], _ => True
  | _ :: _, [] => False
  | p :: rest, now :: readings => now - p._alivetime > limit ∧ AllIdle limit rest readings

/-- All calls of `front()` in the section are on a queue with a connection. -/
def FrontsNonempty (s : State C) : Action C → Prop
  | .scan readings => ∀ que ∈ s.frontQueues readings, que ≠ []
  | _ => True

/-- A pass finds at most `_initSize` connections in the hands of clients, or a connection in the
queue that it keeps. -/
def KeepsFront (s : State C) : Action C → Prop
  | .scan readings => (s.held.length : Int) ≤ s._initSize.toInt ∨
      ¬ AllIdle s.idleLimit s._connectionQue readings
  | _ => True

/-- Every connection that is counted is in the queue or in the hands of a client. -/
def Counted (s : State C) : Prop :=
  s._connectionCnt.toInt = s._connectionQue.length + s.held.length

/-- With a reading for every connection, the passes that are defined are those that find a
connection at every `front()`. -/
theorem scan_isSome_iff {readings : List Int}
    (henough : s._connectionQue.length ≤ readings.length) :
    (s.scannerConnectionTask readings).isSome = true ↔ FrontsNonempty s (.scan readings) := by
  rw [FrontsNonempty]
  induction readings generalizing s with
  | nil =>
    have hqueue : s._connectionQue = [] := List.eq_nil_of_length_eq_zero (by simpa using henough)
    rw [scannerConnectionTask, frontQueues]
    split
    · simp [hqueue]
    · simp
  | cons now readings ih =>
    rw [scannerConnectionTask, frontQueues]
    split
    · cases hqueue : s._connectionQue with
      | nil => simp
      | cons p rest =>
        rw [hqueue, List.length_cons, List.length_cons] at henough
        simp only []
        split
        · have hrest := ih (s := s.destroyFront p rest now) (Nat.le_of_succ_le_succ henough)
          rw [List.forall_mem_cons]
          exact hrest.trans (by simp)
        · simp
    · simp

namespace Counted

/-! ## The counter -/

theorem addConnection (h : Counted s) (hroom : s._connectionCnt.toInt < 2 ^ 31 - 1) :
    Counted (s.addConnection now) := by
  have hcount : (s._connectionCnt + 1).toInt = s._connectionCnt.toInt + 1 := toInt_add_one hroom
  show (s._connectionCnt + 1).toInt = (s._connectionQue ++ [_]).length + s.held.length
  rw [hcount, h, List.length_append, List.length_singleton]
  omega

theorem destroyFront {p : Connection} {rest : List Connection} (h : Counted s)
    (hqueue : s._connectionQue = p :: rest) : Counted (s.destroyFront p rest now) := by
  have hold : s._connectionCnt.toInt = (rest.length + 1 : Nat) + s.held.length := by
    rw [h, hqueue, List.length_cons]
  have hcount : (s._connectionCnt - 1).toInt = s._connectionCnt.toInt - 1 :=
    toInt_sub_one (by omega)
  show (s._connectionCnt - 1).toInt = rest.length + s.held.length
  omega

/-- Where the loop of the scanner stops, the clients hold at most `_initSize` connections. -/
theorem held_le (h : Counted s) (hcount : ¬ s._connectionCnt > s._initSize) :
    (s.held.length : Int) ≤ s._initSize.toInt := by
  have hle : ¬ s._initSize.toInt < s._connectionCnt.toInt :=
    fun hlt => hcount (Int32.lt_iff_toInt_lt.mpr hlt)
  rw [h] at hle
  omega

/-- Where it goes on with an empty queue, they hold more. -/
theorem lt_held (h : Counted s) (hqueue : s._connectionQue = [])
    (hcount : s._connectionCnt > s._initSize) : s._initSize.toInt < s.held.length := by
  have hlt : s._initSize.toInt < s._connectionCnt.toInt := Int32.lt_iff_toInt_lt.mp hcount
  rw [h, hqueue, List.length_nil] at hlt
  omega

theorem scan (h : Counted s) {readings : List Int}
    (hs : s.scannerConnectionTask readings = some s') : Counted s' :=
  scan_invariant (fun _ _ _ _ hqueue h => h.destroyFront hqueue) (fun _ _ h => h) h hs

theorem produce (h : Counted s) : Counted (s.produceConnectionTask now) := by
  simp only [produceConnectionTask]
  split
  · exact h
  · split
    · rename_i hroom
      have hlt : s._connectionCnt.toInt < s._maxSize.toInt := Int32.lt_iff_toInt_lt.mp hroom
      have hmax := s._maxSize.toInt_lt
      have hadded : Counted (s.addConnection now) := h.addConnection (by omega)
      exact hadded
    · exact h

theorem of_constructed {initSize maxSize maxIdleTime : Int32} {readings : Nat → Int} :
    Counted (constructed C initSize maxSize maxIdleTime readings) := by
  suffices h : Counted (constructed C initSize maxSize maxIdleTime readings) ∧
      (constructed C initSize maxSize maxIdleTime readings)._connectionCnt.toInt =
        initSize.toInt.toNat from h.1
  refine constructed_induction (P := fun n s => Counted s ∧ s._connectionCnt.toInt = n)
    ⟨rfl, rfl⟩ ?_
  rintro n hn s ⟨hcounted, hcount⟩
  have hlimit := initSize.toInt_lt
  have hadd : (s._connectionCnt + 1).toInt = s._connectionCnt.toInt + 1 :=
    toInt_add_one (by omega)
  refine ⟨hcounted.addConnection (by omega), ?_⟩
  show (s._connectionCnt + 1).toInt = ((n + 1 : Nat) : Int)
  omega

variable [DecidableEq C]

theorem client (h : Counted s) (c : C) : Counted (s.getConnection c).1 := by
  simp only [getConnection]
  split
  · split
    · exact h
    · exact h
  · rename_i p rest hqueue
    show s._connectionCnt.toInt = rest.length + ((c, p) :: s.held).length
    rw [h, hqueue, List.length_cons, List.length_cons]
    omega

theorem release {c : C} {p : Connection} (h : Counted s) (hp : (c, p) ∈ s.held) :
    Counted (s.deleter c p now) := by
  have hheld := List.length_erase_add_one hp
  show s._connectionCnt.toInt = (s._connectionQue ++ [_]).length + (s.held.erase (c, p)).length
  rw [h, List.length_append, List.length_singleton]
  omega

/-- **Step lemma**: every section keeps the counter right. -/
theorem step {a : Action C} (h : Counted s) (hs : step s a = some s') : Counted s' := by
  cases step_cases hs with
  | produce now => exact h.produce
  | @client c => exact h.client c
  | release now hheld => exact h.release hheld
  | scan hs => exact h.scan hs
  | timeout | producerWakes | clientWakes => exact h

end Counted

/-! ## The calls of `front()` -/

/-- With a right counter a pass reaches the empty queue exactly when it destroys the whole queue
and the clients alone hold more than `_initSize` connections; by induction on its tests. -/
theorem frontsNonempty_iff_keepsFront (h : Counted s) (a : Action C) :
    FrontsNonempty s a ↔ KeepsFront s a := by
  cases a with
  | produce | client | timeout | release | spurious => exact Iff.rfl
  | scan readings =>
    simp only [FrontsNonempty, KeepsFront]
    induction readings generalizing s with
    | nil =>
      rw [frontQueues]
      split
      · rename_i hcount
        cases hqueue : s._connectionQue with
        | nil => simp [AllIdle, h.lt_held hqueue hcount]
        | cons p rest => simp [AllIdle]
      · rename_i hcount
        simp [h.held_le hcount]
    | cons now readings ih =>
      rw [frontQueues]
      split
      · rename_i hcount
        cases hqueue : s._connectionQue with
        | nil => simp [AllIdle, h.lt_held hqueue hcount]
        | cons p rest =>
          simp only [AllIdle]
          split
          · rename_i hidle
            have hrest := ih (s := s.destroyFront p rest now) (h.destroyFront hqueue)
            rw [List.forall_mem_cons, hrest, idleLimit_destroyFront]
            simp [hidle, State.destroyFront]
          · rename_i hyoung
            simp [hyoung]
      · rename_i hcount
        simp [h.held_le hcount]

variable [DecidableEq C]

/-- **The calls of `front()` in a run are all on a queue with a connection exactly when** every
pass finds at most `_initSize` connections in the hands of clients, or a connection in the queue
that has not been idle for too long when its turn comes. -/
theorem fronts_nonempty_iff (initSize maxSize maxIdleTime : Int32) (readings : Nat → Int)
    (as : List (Action C)) :
    Guarded step FrontsNonempty (constructed C initSize maxSize maxIdleTime readings) as ↔
      Guarded step KeepsFront (constructed C initSize maxSize maxIdleTime readings) as :=
  guarded_congr_of_forall_mem (P := fun _ => True)
    (fun _ a h _ => frontsNonempty_iff_keepsFront h a) (fun _ _ _ h _ _ hs => h.step hs)
    Counted.of_constructed fun _ _ => trivial

/-- Two clients have borrowed the connection of the constructor and the one of the producer: a
pass of the scanner calls `front()` on the empty queue. -/
theorem borrowed_front_empty :
    ∃ s, run step (constructed Bool 1 2 60 fun _ => 1)
        [.client true, .client false, .produce 5, .client false] = some s ∧
      s._connectionCnt = 2 ∧ s.frontQueues [9] = [[]] :=
  ⟨_, rfl, rfl, rfl⟩

end CppInOne.ConnectionPool
