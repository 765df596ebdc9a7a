import Mathlib.Logic.Function.Basic
import CppInOne.Lib.Transition
import CppInOne.Mymuduo.TcpConnection

/-!
# The order of the states of a connection

`state_` is an atomic that the loop thread and the threads that call `send` and `shutdown` read
and write. In this file every load and every store is a step of its own; what a function does
between them is left out.

## Main definitions

- `step` — the loads and stores of the functions of `TcpConnection`
- `Forward` — the moves along `kConnecting`, `kConnected`, `kDisconnecting`, `kDisconnceted`

## Main results

- `call_refines` — a function of `TcpConnection` is the sequence of its accesses
- `moves_forward_iff` — which runs only move forward
-/

namespace CppInOne.Mymuduo.StateOrder
open Function Transition TcpConnection

variable {Tid : Type}

/-! ## The system -/

/-- Where a thread is between two accesses of one call. -/
inductive Pc where
  | idle
  /-- `shutdown` has observed `kConnected`. -/
  | shutdownTested
  /-- `connectDestroyed` has observed `kConnected`. -/
  | destroyTested
  deriving DecidableEq, Repr

/-- The thread `none` is the loop thread. -/
structure State (Tid : Type) where
  state_ : StateE
  pc : Option Tid → Pc
  /-- `connectEstablished` has run. -/
  established : Bool
  /-- The number of `sendInLoop` functors in the queue of the loop. -/
  queued : Nat

inductive Action (Tid : Type) where
  /-- The stores of the loop thread. -/
  | connectEstablished
  | handleClose
  | connectDestroyedTest
  | connectDestroyedStore
  /-- The load of `send`; `sendInLoop` loads again. -/
  | sendTest (t : Option Tid)
  | sendInLoopTest
  /-- The load at the end of `handleWrite`. -/
  | drainedTest
  | shutdownTest (t : Option Tid)
  | shutdownStore (t : Option Tid)
  deriving DecidableEq, Repr

/-- Events are handled, and functors run, while the loop thread is in no other function. -/
def step [DecidableEq Tid] (s : State Tid) : Action Tid → Option (State Tid)
  | .connectEstablished =>
    -- run once, by `newConnection`
    if s.established = false ∧ s.pc none = .idle then
      some { s with state_ := .kConnected, established := true }
    else none
  | .handleClose =>
    -- the channel gets events from `connectEstablished` on
    if s.established = true ∧ s.pc none = .idle then
      some { s with state_ := .kDisconnceted }
    else none
  | .connectDestroyedTest =>
    if s.pc none = .idle then
      some (if s.state_ = .kConnected then { s with pc := update s.pc none .destroyTested } else s)
    else none
  | .connectDestroyedStore =>
    if s.pc none = .destroyTested then
      some { s with state_ := .kDisconnceted, pc := update s.pc none .idle }
    else none
  | .sendTest t =>
    if s.pc t = .idle then
      some (if s.state_ = .kConnected ∧ t ≠ none then { s with queued := s.queued + 1 } else s)
    else none
  | .sendInLoopTest =>
    if s.pc none = .idle ∧ 0 < s.queued then some { s with queued := s.queued - 1 } else none
  | .drainedTest => if s.pc none = .idle then some s else none
  | .shutdownTest t =>
    if s.pc t = .idle then
      some (if s.state_ = .kConnected then { s with pc := update s.pc t .shutdownTested } else s)
    else none
  | .shutdownStore t =>
    if s.pc t = .shutdownTested then
      some { s with state_ := .kDisconnecting, pc := update s.pc t .idle }
    else none

/-- The steps as a relation, to take a run apart by its accesses. -/
inductive Step [DecidableEq Tid] (s : State Tid) : Action Tid → State Tid → Prop
  | connectEstablished (h : s.established = false ∧ s.pc none = .idle) :
    Step s .connectEstablished { s with state_ := .kConnected, established := true }
  | handleClose (h : s.established = true ∧ s.pc none = .idle) :
    Step s .handleClose { s with state_ := .kDisconnceted }
  | connectDestroyedTest (h : s.pc none = .idle) : Step s .connectDestroyedTest
    (if s.state_ = .kConnected then { s with pc := update s.pc none .destroyTested } else s)
  | connectDestroyedStore (h : s.pc none = .destroyTested) : Step s .connectDestroyedStore
    { s with state_ := .kDisconnceted, pc := update s.pc none .idle }
  | sendTest {t : Option Tid} (h : s.pc t = .idle) : Step s (.sendTest t)
    (if s.state_ = .kConnected ∧ t ≠ none then { s with queued := s.queued + 1 } else s)
  | sendInLoopTest (h : s.pc none = .idle ∧ 0 < s.queued) :
    Step s .sendInLoopTest { s with queued := s.queued - 1 }
  | drainedTest (h : s.pc none = .idle) : Step s .drainedTest s
  | shutdownTest {t : Option Tid} (h : s.pc t = .idle) : Step s (.shutdownTest t)
    (if s.state_ = .kConnected then { s with pc := update s.pc t .shutdownTested } else s)
  | shutdownStore {t : Option Tid} (h : s.pc t = .shutdownTested) : Step s (.shutdownStore t)
    { s with state_ := .kDisconnecting, pc := update s.pc t .idle }

theorem step_cases [DecidableEq Tid] {s s' : State Tid} {a : Action Tid}
    (hs : step s a = some s') : Step s a s' := by
  cases a
  all_goals
    obtain ⟨hguard, hs⟩ := Option.ite_none_right_eq_some.mp hs
    cases hs
    constructor
    exact hguard

/-- After the constructor. -/
def start : State Tid where
  state_ := .kConnecting
  pc := fun _ => .idle
  established := false
  queued := 0

/-! ## The functions of `TcpConnection` -/

/-- A function that runs on the loop thread. -/
inductive Call where
  | connectEstablished
  | handleClose (acts : List UserAct)
  | connectDestroyed
  | send (buf : Bytes) (result : WriteResult)
  | shutdown

def Call.apply (c : TcpConnection) : Call → TcpConnection
  | .connectEstablished => c.connectEstablished
  | .handleClose acts => c.handleClose acts
  | .connectDestroyed => c.connectDestroyed
  | .send buf result => c.send buf result
  | .shutdown => c.shutdown

/-- The accesses of a call, if no other thread stores in between. -/
def Call.accesses (state : StateE) : Call → List (Action Tid)
  | .connectEstablished => [.connectEstablished]
  | .handleClose _ => [.handleClose]
  | .connectDestroyed =>
    if state = .kConnected then [.connectDestroyedTest, .connectDestroyedStore]
    else [.connectDestroyedTest]
  | .send _ _ => [.sendTest none]
  | .shutdown =>
    if state = .kConnected then [.shutdownTest none, .shutdownStore none] else [.shutdownTest none]

/-- `connectEstablished` is the first call, and events come later. -/
def Call.Ready (s : State Tid) : Call → Prop
  | .connectEstablished => s.established = false
  | .handleClose _ => s.established = true
  | _ => True

/-- A call whose accesses are not interrupted leaves in `state_` what the function leaves there. -/
theorem call_refines [DecidableEq Tid] (c : TcpConnection) (s : State Tid) (call : Call)
    (hstate : s.state_ = c.state_) (hidle : s.pc none = .idle) (hready : call.Ready s) :
    ∃ s', run step s (call.accesses c.state_) = some s' ∧ s'.state_ = (call.apply c).state_ ∧
      s'.pc none = .idle := by
  cases call with
  | connectEstablished =>
    exact ⟨{ s with state_ := .kConnected, established := true },
      run_cons_eq_some.mpr ⟨_, if_pos ⟨hready, hidle⟩, rfl⟩, rfl, hidle⟩
  | handleClose acts =>
    exact ⟨{ s with state_ := .kDisconnceted },
      run_cons_eq_some.mpr ⟨_, if_pos ⟨hready, hidle⟩, rfl⟩, (state_handleClose c acts).symm, hidle⟩
  | connectDestroyed =>
    rw [Call.apply, state_connectDestroyed, Call.accesses]
    -- a load, and a store behind it only where the load has seen `kConnected`
    by_cases hconnected : c.state_ = .kConnected
    · have hload : step s .connectDestroyedTest =
          some { s with pc := update s.pc none .destroyTested } := by
        rw [step, if_pos hidle, if_pos (hstate.trans hconnected)]
      have hstore : step { s with pc := update s.pc none .destroyTested } .connectDestroyedStore =
          some { s with state_ := .kDisconnceted, pc := update s.pc none .idle } := by
        simp [step]
      rw [if_pos hconnected, if_pos hconnected]
      exact ⟨_, run_cons_eq_some.mpr ⟨_, hload, run_cons_eq_some.mpr ⟨_, hstore, rfl⟩⟩, rfl,
        by simp⟩
    · have hload : step s .connectDestroyedTest = some s := by
        rw [step, if_pos hidle, if_neg (hstate ▸ hconnected)]
      rw [if_neg hconnected, if_neg hconnected]
      exact ⟨s, run_cons_eq_some.mpr ⟨_, hload, rfl⟩, hstate, hidle⟩
  | send buf result =>
    -- on the loop thread `send` only loads
    have hload : step s (.sendTest none) = some s := by
      rw [step, if_pos hidle, if_neg fun h => h.2 rfl]
    rw [Call.apply, state_send]
    exact ⟨s, run_cons_eq_some.mpr ⟨_, hload, rfl⟩, hstate, hidle⟩
  | shutdown =>
    rw [Call.apply, state_shutdown, Call.accesses]
    by_cases hconnected : c.state_ = .kConnected
    · have hload : step s (.shutdownTest none) =
          some { s with pc := update s.pc none .shutdownTested } := by
        rw [step, if_pos hidle, if_pos (hstate.trans hconnected)]
      have hstore : step { s with pc := update s.pc none .shutdownTested } (.shutdownStore none) =
          some { s with state_ := .kDisconnecting, pc := update s.pc none .idle } := by
        simp [step]
      rw [if_pos hconnected, if_pos hconnected]
      exact ⟨_, run_cons_eq_some.mpr ⟨_, hload, run_cons_eq_some.mpr ⟨_, hstore, rfl⟩⟩, rfl,
        by simp⟩
    · have hload : step s (.shutdownTest none) = some s := by
        rw [step, if_pos hidle, if_neg (hstate ▸ hconnected)]
      rw [if_neg hconnected, if_neg hconnected]
      exact ⟨s, run_cons_eq_some.mpr ⟨_, hload, rfl⟩, hstate, hidle⟩

/-! ## Moving forward -/

/-- The moves of `state_`. -/
def moves : List (StateE × StateE) :=
  [(.kConnecting, .kConnected), (.kConnected, .kDisconnecting), (.kConnected, .kDisconnceted),
    (.kDisconnecting, .kDisconnceted)]

def Forward (state state' : StateE) : Prop := state = state' ∨ (state, state') ∈ moves

instance (state state' : StateE) : Decidable (Forward state state') :=
  inferInstanceAs (Decidable (_ ∨ _ ∈ _))

theorem Forward.refl (state : StateE) : Forward state state := Or.inl rfl

/-- `kDisconnceted` is the last state. -/
theorem Forward.eq_of_disconnected {state' : StateE} (h : Forward .kDisconnceted state') :
    state' = .kDisconnceted := by
  revert h
  cases state' <;> decide

/-- From every state but `kConnecting` one may go to `kDisconnceted`. -/
theorem forward_disconnected {state : StateE} (h : state ≠ .kConnecting) :
    Forward state .kDisconnceted := by
  revert h
  cases state <;> decide

theorem forward_disconnecting_iff {state : StateE} (h : state ≠ .kConnecting) :
    Forward state .kDisconnecting ↔ state ≠ .kDisconnceted := by
  revert h
  cases state <;> decide

variable {s s' : State Tid} {a : Action Tid}

/-- The invariant: only `connectEstablished` ends `kConnecting`, and what has been observed to be
`kConnected` has left it. -/
structure Inv (s : State Tid) : Prop where
  connecting : s.established = false ↔ s.state_ = .kConnecting
  tested : ∀ t, s.pc t ≠ .idle → s.established = true

theorem inv_start : Inv (start : State Tid) where
  connecting := iff_of_true rfl rfl
  tested _ h := absurd rfl h

theorem inv_of_established (hest : s.established = true) (hstate : s.state_ ≠ .kConnecting) :
    Inv s where
  connecting := iff_of_false (by simp [hest]) hstate
  tested _ _ := hest

theorem Inv.left_connecting (h : Inv s) (hest : s.established = true) :
    s.state_ ≠ .kConnecting := by
  intro hstate
  rw [h.connecting.mpr hstate] at hest
  cases hest

variable [DecidableEq Tid]

def MovesForward (s : State Tid) (a : Action Tid) : Prop :=
  ∀ s', step s a = some s' → Forward s.state_ s'.state_

/-- The condition on a step: `shutdown` does not store over `kDisconnceted`. -/
def StoresInTime (s : State Tid) : Action Tid → Prop
  | .shutdownStore t => s.pc t = .shutdownTested → s.state_ ≠ .kDisconnceted
  | _ => True

/-- A load that moves a thread on only when it has observed `kConnected`. -/
theorem Inv.load (h : Inv s) {t : Option Tid} {pc : Pc} :
    Inv (if s.state_ = .kConnected then { s with pc := update s.pc t pc } else s) := by
  split
  · rename_i hconnected
    have hest : s.established = true := by
      by_contra hne
      rw [h.connecting.mp (by simpa using hne)] at hconnected
      cases hconnected
    exact ⟨h.connecting, fun _ _ => hest⟩
  · exact h

theorem Inv.step (h : Inv s) (hs : step s a = some s') : Inv s' := by
  cases step_cases hs with
  | connectEstablished => exact inv_of_established rfl nofun
  | handleClose hguard => exact inv_of_established hguard.1 nofun
  | connectDestroyedTest | shutdownTest => exact h.load
  | connectDestroyedStore hpc =>
    exact inv_of_established (h.tested none (by rw [hpc]; decide)) nofun
  | sendTest =>
    split
    · exact ⟨h.connecting, h.tested⟩
    · exact h
  | sendInLoopTest => exact ⟨h.connecting, h.tested⟩
  | drainedTest => exact h
  | @shutdownStore t hpc => exact inv_of_established (h.tested t (by rw [hpc]; decide)) nofun

/-- **Step lemma**: the store of `shutdown` is the only one that can go back. -/
theorem Inv.movesForward_iff (h : Inv s) (a : Action Tid) :
    MovesForward s a ↔ StoresInTime s a := by
  have hstore : ∀ t, s.pc t = .shutdownTested →
      (Forward s.state_ .kDisconnecting ↔ s.state_ ≠ .kDisconnceted) := fun t hpc =>
    forward_disconnecting_iff (h.left_connecting (h.tested t (by rw [hpc]; decide)))
  constructor
  · intro hforward
    cases a with
    | shutdownStore t => exact fun hpc => (hstore t hpc).mp (hforward _ (if_pos hpc))
    | _ => trivial
  · intro hcond s' hs
    cases step_cases hs with
    | @shutdownStore t hpc => exact (hstore t hpc).mpr (hcond hpc)
    | connectEstablished hguard =>
      rw [h.connecting.mp hguard.1]
      show Forward .kConnecting .kConnected
      decide
    | handleClose hguard => exact forward_disconnected (h.left_connecting hguard.1)
    | connectDestroyedStore hpc =>
      exact forward_disconnected (h.left_connecting (h.tested none (by rw [hpc]; decide)))
    | sendInLoopTest | drainedTest => exact Forward.refl _
    | connectDestroyedTest | sendTest | shutdownTest =>
      -- a load leaves the state, whatever it finds
      split <;> exact Forward.refl _

/-- **The state only moves forward**, in every step of a run of any number of threads, if and only
if no `shutdown` that has observed `kConnected` stores after `kDisconnceted` has been stored. -/
theorem moves_forward_iff (as : List (Action Tid)) :
    Guarded step MovesForward start as ↔ Guarded step StoresInTime start as :=
  guarded_congr_of_forall_mem (I := Inv) (P := fun _ => True)
    (fun _ a h _ => h.movesForward_iff a) (fun _ _ _ h _ _ hs => h.step hs) inv_start
    fun _ _ => trivial

/-- In such a run a closed connection stays closed. -/
theorem stays_disconnected {as : List (Action Tid)} (hs : s.state_ = .kDisconnceted)
    (hforward : Guarded step MovesForward s as) (hrun : run step s as = some s') :
    s'.state_ = .kDisconnceted := by
  refine run_invariant (I := fun s => s.state_ = .kDisconnceted) (fun s a s' h hmove hs' => ?_) hs
    hforward hrun
  have hstep := hmove s' hs'
  rw [h] at hstep
  exact hstep.eq_of_disconnected

/-- A `shutdown` that is overtaken by the close of the connection. -/
def overtaken : List (Action Unit) :=
  [.connectEstablished, .shutdownTest (some ()), .handleClose, .shutdownStore (some ())]

/-- It brings the connection back from `kDisconnceted`. -/
theorem overtaken_moves_back :
    ∃ s s' : State Unit, run step start (overtaken.take 3) = some s ∧
      step s (.shutdownStore (some ())) = some s' ∧ s.state_ = .kDisconnceted ∧
      s'.state_ = .kDisconnecting ∧ ¬ Guarded step MovesForward start overtaken := by
  have hrun : run step (start : State Unit) (overtaken.take 3) = some _ := rfl
  refine ⟨_, _, hrun, rfl, rfl, rfl, ?_⟩
  show ¬ Guarded step MovesForward start (overtaken.take 3 ++ [.shutdownStore (some ())])
  refine not_guarded_concat hrun fun hmoves => ?_
  exact absurd (hmoves _ rfl) (by decide)

end CppInOne.Mymuduo.StateOrder
