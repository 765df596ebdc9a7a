import Mathlib.Data.Fintype.Option
import Mathlib.Logic.Function.Basic
import CppInOne.Lib.Trace
import CppInOne.Lib.Transition
import CppInOne.Mymuduo.TcpConnection

/-!
# Sends and shutdown from several threads

Any number of threads call `send` and `shutdown` on one connection. Off the loop thread a call
ends in a functor in the loop's queue; on the loop thread it runs at once, and `handleWrite`
runs `shutdownInLoop` too when it has drained the output. A step is one load or store of
`state_`, one push or pop of the queue, or a part of the loop thread's work without either.
`doPendingFunctors` runs the functors in the order of the queue, so one queue stands for the
swapped batch and what is queued behind it.
-/

namespace CppInOne.Mymuduo.ShutdownOrder
open Function Transition Trace TcpConnection

variable {Tid : Type}

/-! ## The system -/

/-- Where a thread is in its call of `send` or `shutdown`. -/
inductive Pc where
  | idle
  /-- `send` has observed `kConnected`. -/
  | sendTested (id : Nat) (buf : Bytes)
  /-- `send` has run or queued `sendInLoop`, and is about to return. -/
  | sendDone (id : Nat)
  | shutdownCalled
  | shutdownTested
  | shutdownStored
  /-- The loop thread in `handleWrite`, before its test of `state_`. -/
  | drained
  deriving DecidableEq, Repr

/-- A functor in the queue of the loop. -/
inductive Work where
  | sendInLoop (id : Nat) (buf : Bytes)
  | shutdownInLoop
  deriving DecidableEq, Repr

/-- The thread `none` is the loop thread. The calls of `send` that observe `kConnected` are
numbered. -/
structure State (Tid : Type) where
  conn : TcpConnection
  queue : List Work
  pc : Option Tid → Pc
  nextId : Nat

inductive Action (Tid : Type) where
  | sendTest (t : Option Tid) (buf : Bytes)
  | sendRun (t : Option Tid) (result : WriteResult)
  | sendReturn (t : Option Tid)
  | shutdownCall (t : Option Tid)
  | shutdownTest (t : Option Tid)
  | shutdownStore (t : Option Tid)
  | shutdownRun (t : Option Tid)
  /-- The loop runs the first functor of its queue. -/
  | runFunctor (result : WriteResult)
  | handleWrite (result : WriteResult)
  | testDrained
  | handleClose (acts : List UserAct)
  deriving DecidableEq, Repr

/-- `sendInLoop` for the call `id`, with the record of what becomes of its bytes. -/
def sendFor (c : TcpConnection) (id : Nat) (buf : Bytes) (result : WriteResult) :
    TcpConnection :=
  (c.emit (if c.state_ = .kDisconnceted then .sendGivenUp id else .sendHandled id)).sendInLoop
    buf result

def act [DecidableEq Tid] (s : State Tid) : Action Tid → Option (State Tid)
  | .sendTest t buf =>
    if s.pc t = .idle then
      some (if s.conn.state_ = .kConnected then
          { s with pc := update s.pc t (.sendTested s.nextId buf), nextId := s.nextId + 1 }
        else s)
    else none
  | .sendRun t result =>
    match s.pc t, t with
    | .sendTested id buf, none =>
      some { s with conn := sendFor s.conn id buf result
                    pc := update s.pc none (.sendDone id) }
    | .sendTested id buf, some t =>
      some { s with queue := s.queue ++ [.sendInLoop id buf]
                    pc := update s.pc (some t) (.sendDone id) }
    | _, _ => none
  | .sendReturn t =>
    match s.pc t with
    | .sendDone id =>
      some { s with conn := s.conn.emit (.sendReturned id), pc := update s.pc t .idle }
    | _ => none
  | .shutdownCall t =>
    if s.pc t = .idle then
      some { s with conn := s.conn.emit .shutdownCalled, pc := update s.pc t .shutdownCalled }
    else none
  | .shutdownTest t =>
    if s.pc t = .shutdownCalled then
      some { s with pc := update s.pc t
                      (if s.conn.state_ = .kConnected then .shutdownTested else .idle) }
    else none
  | .shutdownStore t =>
    if s.pc t = .shutdownTested then
      some { s with conn := s.conn.setState .kDisconnecting
                    pc := update s.pc t .shutdownStored }
    else none
  | .shutdownRun t =>
    match s.pc t, t with
    | .shutdownStored, none =>
      some { s with conn := s.conn.shutdownInLoop, pc := update s.pc none .idle }
    | .shutdownStored, some t =>
      some { s with queue := s.queue ++ [.shutdownInLoop], pc := update s.pc (some t) .idle }
    | _, _ => none
  | .runFunctor result =>
    if s.pc none = .idle then
      match s.queue with
      | [] => none
      | .sendInLoop id buf :: rest =>
        some { s with conn := sendFor s.conn id buf result, queue := rest }
      | .shutdownInLoop :: rest =>
        some { s with conn := s.conn.shutdownInLoop, queue := rest }
    else none
  | .handleWrite result =>
    if s.pc none = .idle then
      let (conn, drained) := s.conn.handleWriteDrain result
      some { s with conn := conn, pc := if drained then update s.pc none .drained else s.pc }
    else none
  | .testDrained =>
    if s.pc none = .drained then
      some { s with conn := if s.conn.state_ = .kDisconnecting then s.conn.shutdownInLoop
                      else s.conn
                    pc := update s.pc none .idle }
    else none
  | .handleClose acts =>
    if s.pc none = .idle then some { s with conn := s.conn.handleClose acts } else none

/-- Nothing happens any more once the process has exited. -/
def step [DecidableEq Tid] (s : State Tid) (a : Action Tid) : Option (State Tid) :=
  if s.conn.poller.exited then none else act s a

/-- An established connection, with no call under way. -/
def start (this : Ptr) (sockfd : Int) (writeComplete highWater : Bool) : State Tid where
  conn := established this sockfd writeComplete highWater
  queue := []
  pc := fun _ => .idle
  nextId := 0

/-! ## The order of sends and shutdown -/

/-- `shutdownWrite` finds `outputBuffer_` empty and every send handled that returned before a
call of `shutdown`; no write follows it. -/
def Orderly (pre : List Event) : Event → Prop
  | .shutdownWrite unsent =>
    unsent = 0 ∧ ∀ id, [.sendReturned id, .shutdownCalled].Sublist pre → .sendHandled id ∈ pre
  | .write _ _ => ∀ n, .shutdownWrite n ∉ pre
  | _ => True

/-- A send that observed `kConnected` has not run `sendInLoop` yet. -/
def SendWaiting (s : State Tid) : Prop :=
  (∃ t id buf, s.pc t = .sendTested id buf) ∨ ∃ id buf, .sendInLoop id buf ∈ s.queue

def Pc.sendWaits : Pc → Bool
  | .sendTested _ _ => true
  | _ => false

def Work.isSend : Work → Bool
  | .sendInLoop _ _ => true
  | .shutdownInLoop => false

theorem Pc.sendWaits_iff {pc : Pc} : pc.sendWaits = true ↔ ∃ id buf, pc = .sendTested id buf := by
  cases pc <;> simp [sendWaits]

theorem Work.isSend_iff {w : Work} : w.isSend = true ↔ ∃ id buf, w = .sendInLoop id buf := by
  cases w <;> simp [isSend]

instance [Fintype Tid] (s : State Tid) : Decidable (SendWaiting s) :=
  decidable_of_iff ((∃ t, (s.pc t).sendWaits = true) ∨ ∃ w ∈ s.queue, w.isSend = true) (by
    simp only [Pc.sendWaits_iff, Work.isSend_iff, SendWaiting]
    refine or_congr_right ⟨?_, ?_⟩
    · rintro ⟨_, hmem, id, buf, rfl⟩
      exact ⟨id, buf, hmem⟩
    · rintro ⟨id, buf, hmem⟩
      exact ⟨_, hmem, id, buf, rfl⟩)

/-- `handleClose` with bytes in `outputBuffer_`, or a send given up because of it. -/
def discards : Event → Bool
  | .handleClose unsent => unsent != 0
  | .sendGivenUp _ => true
  | _ => false

def Discarded (c : TcpConnection) : Prop := ∃ e ∈ c.trace, discards e = true

instance (c : TcpConnection) : Decidable (Discarded c) :=
  inferInstanceAs (Decidable (∃ e ∈ c.trace, discards e = true))

/-- The step executes `shutdownInLoop`. -/
def RunsShutdown (s : State Tid) : Action Tid → Prop
  | .shutdownRun none => s.pc none = .shutdownStored
  | .runFunctor _ => s.queue.head? = some .shutdownInLoop
  | .testDrained => s.conn.state_ = .kDisconnecting
  | _ => False

instance (s : State Tid) : ∀ a, Decidable (RunsShutdown s a)
  | .shutdownRun none => inferInstanceAs (Decidable (_ = _))
  | .shutdownRun (some _) => .isFalse id
  | .runFunctor _ => inferInstanceAs (Decidable (_ = _))
  | .testDrained => inferInstanceAs (Decidable (_ = _))
  | .sendTest _ _ => .isFalse id
  | .sendRun _ _ => .isFalse id
  | .sendReturn _ => .isFalse id
  | .shutdownCall _ => .isFalse id
  | .shutdownTest _ => .isFalse id
  | .shutdownStore _ => .isFalse id
  | .handleWrite _ => .isFalse id
  | .handleClose _ => .isFalse id

/-- The condition on a step: when it executes `shutdownInLoop` and the channel is not writing,
no send waits and no output has been discarded. -/
def Timely (s : State Tid) (a : Action Tid) : Prop :=
  RunsShutdown s a → s.conn.channel_.isWriting = false →
    ¬ SendWaiting s ∧ ¬ Discarded s.conn

instance [Fintype Tid] (s : State Tid) (a : Action Tid) : Decidable (Timely s a) :=
  inferInstanceAs (Decidable (_ → _ → _))

/-! ## The invariant -/

/-- What has become of the call `id` of `send` once its functor is queued or run. -/
def Settled (s : State Tid) (id : Nat) : Prop :=
  .sendHandled id ∈ s.conn.trace ∨ .sendGivenUp id ∈ s.conn.trace ∨
    ∃ buf, .sendInLoop id buf ∈ s.queue

/-- A call of `shutdown` has stored `kDisconnecting` and not run `shutdownInLoop` yet. -/
def ShutdownWaiting (s : State Tid) : Prop :=
  .shutdownInLoop ∈ s.queue ∨ ∃ t, s.pc t = .shutdownStored

structure Inv (s : State Tid) : Prop where
  sound : s.conn.Sound
  orderly : Justified Orderly s.conn.trace
  waiting : ¬ Discarded s.conn → s.conn.Waiting
  stored : ShutdownWaiting s → s.conn.state_ ≠ .kConnected
  returned : ∀ id, .sendReturned id ∈ s.conn.trace → Settled s id
  done : ∀ t id, s.pc t = .sendDone id → Settled s id
  /-- After `shutdownWrite` nothing can start a write any more. -/
  shut : ∀ n, .shutdownWrite n ∈ s.conn.trace →
    s.conn.state_ ≠ .kConnected ∧ s.conn.channel_.isWriting = false ∧ ¬ SendWaiting s

theorem inv_start (this : Ptr) (sockfd : Int) (writeComplete highWater : Bool) :
    Inv (start this sockfd writeComplete highWater : State Tid) := by
  have htrace : (start this sockfd writeComplete highWater : State Tid).conn.trace =
      [.epollCtl .ADD sockfd true, .connectionCallback true] := trace_established _ _ _ _
  refine ⟨sound_established this sockfd writeComplete highWater, ?_,
    fun _ => waiting_established this sockfd writeComplete highWater, ?_, ?_, ?_, ?_⟩
  · rw [htrace]
    exact justified_of_free (by simp [Orderly])
  · rintro (hqueue | ⟨t, ht⟩)
    · cases hqueue
    · cases ht
  · intro id hid
    rw [htrace] at hid
    simp at hid
  · intro t id hid
    cases hid
  · intro n hn
    rw [htrace] at hn
    simp at hn

/-! ### Steps that do not touch the connection -/

/-- A step of the threads and the queue keeps the invariant when no send or shutdown starts to
wait that the invariant forbids. -/
theorem Inv.threads {s s' : State Tid} (h : Inv s) (hconn : s'.conn = s.conn)
    (hqueue : ∀ id buf, .sendInLoop id buf ∈ s.queue → Settled s' id)
    (hdone : ∀ t id, s'.pc t = .sendDone id → s.pc t = .sendDone id ∨ Settled s' id)
    (hstored : ShutdownWaiting s' → ShutdownWaiting s ∨ s.conn.state_ ≠ .kConnected)
    (hsend : SendWaiting s' → SendWaiting s ∨ s.conn.state_ = .kConnected) : Inv s' := by
  have hsettled : ∀ id, Settled s id → Settled s' id := by
    rintro id (hid | hid | ⟨buf, hbuf⟩)
    · exact Or.inl (hconn ▸ hid)
    · exact Or.inr (Or.inl (hconn ▸ hid))
    · exact hqueue id buf hbuf
  refine ⟨hconn ▸ h.sound, hconn ▸ h.orderly, hconn ▸ h.waiting, ?_, ?_, ?_, ?_⟩
  · rw [hconn]
    exact fun hw => (hstored hw).elim h.stored id
  · rw [hconn]
    exact fun id hid => hsettled id (h.returned id hid)
  · intro t id hid
    obtain hid | hid := hdone t id hid
    · exact hsettled id (h.done t id hid)
    · exact hid
  · rw [hconn]
    intro n hn
    obtain ⟨hstate, hidle, hnone⟩ := h.shut n hn
    refine ⟨hstate, hidle, fun hw => ?_⟩
    obtain hw | hw := hsend hw
    · exact hnone hw
    · exact hstate hw

theorem eq_of_update [DecidableEq Tid] {f : Option Tid → Pc} {t t' : Option Tid} {pc x : Pc}
    (h : update f t pc t' = x) : pc = x ∨ f t' = x := by
  by_cases ht : t' = t
  · subst ht
    rw [update_self] at h
    exact Or.inl h
  · rw [update_of_ne ht] at h
    exact Or.inr h

/-- A thread moves on. -/
theorem Inv.setPc [DecidableEq Tid] {s : State Tid} (h : Inv s) (t : Option Tid) (pc : Pc)
    (nextId : Nat) (hdone : ∀ id, pc = .sendDone id → Settled s id)
    (hstored : pc = .shutdownStored → s.conn.state_ ≠ .kConnected)
    (hsend : ∀ id buf, pc = .sendTested id buf → s.conn.state_ = .kConnected) :
    Inv { s with pc := update s.pc t pc, nextId := nextId } := by
  refine h.threads rfl (fun id buf hbuf => Or.inr (Or.inr ⟨buf, hbuf⟩)) ?_ ?_ ?_
  · intro t' id hid
    obtain hid | hid := eq_of_update hid
    · exact Or.inr (hdone id hid)
    · exact Or.inl hid
  · rintro (hqueue | ⟨t', ht'⟩)
    · exact Or.inl (Or.inl hqueue)
    · obtain hpc | ht' := eq_of_update ht'
      · exact Or.inr (hstored hpc)
      · exact Or.inl (Or.inr ⟨t', ht'⟩)
  · rintro (⟨t', id, buf, ht'⟩ | hqueue)
    · obtain hpc | ht' := eq_of_update ht'
      · exact Or.inr (hsend id buf hpc)
      · exact Or.inl (Or.inl ⟨t', id, buf, ht'⟩)
    · exact Or.inl (Or.inr hqueue)

/-- A thread returns, or moves on inside `shutdown` before the store. -/
theorem Inv.setPc_plain [DecidableEq Tid] {s : State Tid} (h : Inv s) (t : Option Tid) {pc : Pc}
    (hpc : pc = .idle ∨ pc = .shutdownCalled ∨ pc = .shutdownTested ∨ pc = .drained) :
    Inv { s with pc := update s.pc t pc } := by
  refine h.setPc t pc s.nextId ?_ ?_ ?_ <;> obtain rfl | rfl | rfl | rfl := hpc <;> simp

/-- Queueing the functor of a call that is under way. -/
theorem Inv.push {s : State Tid} (h : Inv s) {w : Work}
    (hw : (w = .shutdownInLoop ∧ ShutdownWaiting s) ∨ (w ≠ .shutdownInLoop ∧ SendWaiting s)) :
    Inv { s with queue := s.queue ++ [w] } := by
  refine h.threads rfl (fun id buf hbuf => ?_) (fun _ _ hid => Or.inl hid) ?_ ?_
  · exact Or.inr (Or.inr ⟨buf, List.mem_append_left _ hbuf⟩)
  · rintro (hqueue | hpc)
    · obtain hqueue | hqueue := List.mem_append.mp hqueue
      · exact Or.inl (Or.inl hqueue)
      · obtain ⟨_, hw⟩ | ⟨hne, _⟩ := hw
        · exact Or.inl hw
        · exact absurd (List.mem_singleton.mp hqueue).symm hne
    · exact Or.inl (Or.inr hpc)
  · rintro (hpc | ⟨id, buf, hqueue⟩)
    · exact Or.inl (Or.inl hpc)
    · obtain hqueue | hqueue := List.mem_append.mp hqueue
      · exact Or.inl (Or.inr ⟨id, buf, hqueue⟩)
      · obtain ⟨heq, _⟩ | ⟨_, hw⟩ := hw
        · rw [heq] at hqueue
          cases List.mem_singleton.mp hqueue
        · exact Or.inl hw

/-- Taking a functor that has been run off the queue. -/
theorem Inv.pop {s : State Tid} (h : Inv s) {w : Work} {rest : List Work}
    (hqueue : s.queue = w :: rest)
    (hrun : ∀ id buf, w = .sendInLoop id buf → .sendHandled id ∈ s.conn.trace ∨
      .sendGivenUp id ∈ s.conn.trace) : Inv { s with queue := rest } := by
  have hmem : ∀ w' ∈ rest, w' ∈ s.queue := by
    intro w' hw'
    rw [hqueue]
    exact List.mem_cons_of_mem w hw'
  refine h.threads rfl ?_ (fun _ _ hid => Or.inl hid) ?_ ?_
  · intro id buf hbuf
    rw [hqueue] at hbuf
    obtain hbuf | hbuf := List.mem_cons.mp hbuf
    · obtain hid | hid := hrun id buf hbuf.symm
      · exact Or.inl hid
      · exact Or.inr (Or.inl hid)
    · exact Or.inr (Or.inr ⟨buf, hbuf⟩)
  · rintro (hw | hpc)
    · exact Or.inl (Or.inl (hmem _ hw))
    · exact Or.inl (Or.inr hpc)
  · rintro (hpc | ⟨id, buf, hw⟩)
    · exact Or.inl (Or.inl hpc)
    · exact Or.inl (Or.inr ⟨id, buf, hmem _ hw⟩)

/-! ### Steps of the connection -/

theorem Discarded.went {c c' : TcpConnection} {io : List Event} (hwent : Went c io c')
    (h : Discarded c) : Discarded c' := by
  obtain ⟨e, he, hd⟩ := h
  exact ⟨e, hwent.mem_old he, hd⟩

/-- A step of the connection keeps the invariant when its events are in order, and when it
keeps what has been shut down shut. -/
theorem Inv.conn {s : State Tid} (h : Inv s) {c : TcpConnection} {io : List Event}
    (hsound : c.Sound) (hwent : Went s.conn io c)
    (horderly : Justified Orderly (s.conn.trace ++ io))
    (hwaiting : ¬ Discarded c → c.Waiting)
    (hstate : s.conn.state_ ≠ .kConnected → c.state_ ≠ .kConnected)
    (hreturned : ∀ id, .sendReturned id ∈ io → Settled s id)
    (hshut : ∀ n, .shutdownWrite n ∈ s.conn.trace ∨ .shutdownWrite n ∈ io →
      c.state_ ≠ .kConnected ∧ c.channel_.isWriting = false ∧ ¬ SendWaiting s) :
    Inv { s with conn := c } := by
  have hsettled : ∀ id, Settled s id → Settled { s with conn := c } id := by
    rintro id (hid | hid | hid)
    · exact Or.inl (hwent.mem_old hid)
    · exact Or.inr (Or.inl (hwent.mem_old hid))
    · exact Or.inr (Or.inr hid)
  refine ⟨hsound, ?_, hwaiting, fun hw => hstate (h.stored hw), ?_,
    fun t id hid => hsettled id (h.done t id hid), ?_⟩
  · obtain ⟨quiet, hquiet, htrace⟩ := hwent
    rw [htrace]
    refine horderly.append_free fun e he pre => ?_
    have hq := hquiet e he
    cases e <;> simp_all [Event.quiet, Orderly]
  · intro id hid
    obtain hid | hid | hq := hwent.mem hid
    · exact hsettled id (h.returned id hid)
    · exact hsettled id (hreturned id hid)
    · cases hq
  · intro n hn
    obtain hn | hn | hq := hwent.mem hn
    · exact hshut n (Or.inl hn)
    · exact hshut n (Or.inr hn)
    · cases hq

/-- The events of a call: `send` returns, or `shutdown` is called. -/
theorem Inv.emit {s : State Tid} (h : Inv s) {e : Event}
    (he : e = .shutdownCalled ∨ ∃ id, e = .sendReturned id ∧ Settled s id) :
    Inv { s with conn := s.conn.emit e } := by
  have hwent := went_emit s.conn e
  refine h.conn (h.sound.emit e) hwent (h.orderly.concat ?_)
    (fun hd => h.waiting fun hd' => hd (hd'.went hwent)) id ?_ ?_
  · obtain rfl | ⟨id, rfl, _⟩ := he <;> trivial
  · intro id hid
    obtain rfl | ⟨id', rfl, hs⟩ := he
    · simp at hid
    · simp only [List.mem_singleton, Event.sendReturned.injEq] at hid
      exact hid ▸ hs
  · intro n hn
    obtain hn | hn := hn
    · exact h.shut n hn
    · obtain rfl | ⟨id, rfl, _⟩ := he <;> simp at hn

theorem Inv.setState {s : State Tid} (h : Inv s) :
    Inv { s with conn := s.conn.setState .kDisconnecting } := by
  refine h.conn (h.sound.setState _) (Went.refl s.conn) (by simpa using h.orderly) h.waiting
    (fun _ => by simp) (by simp) ?_
  intro n hn
  obtain ⟨_, hidle, hnone⟩ := h.shut n (by simpa using hn)
  exact ⟨by simp, hidle, hnone⟩

/-- What `sendFor` does: `outcome` tells what becomes of the bytes, `io` is at most one
write. -/
structure SentFor (c : TcpConnection) (id : Nat) (outcome : Event) (io : List Event)
    (c' : TcpConnection) : Prop where
  state_eq : c'.state_ = c.state_
  outcome_eq : outcome = .sendHandled id ∨ outcome = .sendGivenUp id
  io_eq : io = [] ∨ ∃ offered result, io = [.write offered result]
  went : Went c (outcome :: io) c'
  waiting : c.Waiting → c'.Waiting

theorem sendFor_spec (c : TcpConnection) (id : Nat) (buf : Bytes) (result : WriteResult) :
    ∃ outcome io, SentFor c id outcome io (sendFor c id buf result) := by
  rw [sendFor]
  by_cases hstate : c.state_ = .kDisconnceted
  · rw [if_pos hstate, sendInLoop_giveUp (show (c.emit _).state_ = _ from hstate)]
    exact ⟨_, [], rfl, Or.inr rfl, Or.inl rfl, went_emit c _, fun hw => hw⟩
  · rw [if_neg hstate]
    have hwaiting : c.Waiting → ((c.emit (.sendHandled id)).sendInLoop buf result).Waiting :=
      fun hw => Waiting.sendInLoop (c := c.emit (.sendHandled id)) hw hstate buf result
    by_cases hdirect : c.writesDirectly
    · have ho := sendInLoop_direct (c := c.emit (.sendHandled id)) hstate hdirect buf result
      exact ⟨_, _, ho.state_eq, Or.inl rfl, Or.inr ⟨_, _, rfl⟩, ho.went.of_emit, hwaiting⟩
    · have ho := sendInLoop_queued (c := c.emit (.sendHandled id)) hstate hdirect buf result
      exact ⟨_, _, ho.state_eq, Or.inl rfl, Or.inl rfl, ho.went.of_emit, hwaiting⟩

/-- A send that is handled has passed its bytes to `write()` or to `outputBuffer_`. -/
theorem sendHandled_bytes {c : TcpConnection} (hstate : c.state_ ≠ .kDisconnceted) (id : Nat)
    (buf : Bytes) (result : WriteResult) :
    .write buf result ∈ (sendFor c id buf result).trace ∨
      (sendFor c id buf result).outputBuffer_.readable = c.outputBuffer_.readable ++ buf := by
  rw [sendFor, if_neg hstate]
  by_cases hdirect : c.writesDirectly
  · have ho := sendInLoop_direct (c := c.emit (.sendHandled id)) hstate hdirect buf result
    exact Or.inl (ho.went.mem_new List.mem_cons_self)
  · have ho := sendInLoop_queued (c := c.emit (.sendHandled id)) hstate hdirect buf result
    exact Or.inr ho.out_eq

/-- Running `sendInLoop` while a send waits: nothing has been shut down yet. -/
theorem Inv.sendFor {s : State Tid} (h : Inv s) (hwait : SendWaiting s) (id : Nat) (buf : Bytes)
    (result : WriteResult) :
    Inv { s with conn := sendFor s.conn id buf result } ∧
      (.sendHandled id ∈ (sendFor s.conn id buf result).trace ∨
        .sendGivenUp id ∈ (sendFor s.conn id buf result).trace) := by
  obtain ⟨outcome, io, hstate, houtcome, hio, hwent, hwaiting⟩ := sendFor_spec s.conn id buf result
  have hsound : (ShutdownOrder.sendFor s.conn id buf result).Sound :=
    (h.sound.emit _).sendInLoop buf result
  have hopen : ∀ n, .shutdownWrite n ∉ s.conn.trace := fun n hn => (h.shut n hn).2.2 hwait
  have hhandled : Justified Orderly (s.conn.trace ++ [outcome]) :=
    h.orderly.concat (by obtain rfl | rfl := houtcome <;> trivial)
  refine ⟨h.conn hsound hwent ?_ (fun hd => hwaiting (h.waiting fun hd' => hd (hd'.went hwent)))
    (fun hne => hstate ▸ hne) ?_ ?_, ?_⟩
  · obtain rfl | ⟨offered, result', rfl⟩ := hio
    · exact hhandled
    · have hwrite := hhandled.concat (show Orderly _ (.write offered result') from ?_)
      · simpa [List.append_assoc] using hwrite
      · intro n hn
        obtain hn | hn := List.mem_append.mp hn
        · exact hopen n hn
        · obtain rfl | rfl := houtcome <;> simp at hn
  · intro id' hid'
    obtain rfl | rfl := houtcome <;> rcases hio with rfl | ⟨_, _, rfl⟩ <;> simp at hid'
  · intro n hn
    obtain hn | hn := hn
    · exact absurd hn (hopen n)
    · obtain rfl | rfl := houtcome <;> rcases hio with rfl | ⟨_, _, rfl⟩ <;> simp at hn
  · obtain rfl | rfl := houtcome
    · exact Or.inl (hwent.mem_new List.mem_cons_self)
    · exact Or.inr (hwent.mem_new List.mem_cons_self)

/-- **The step lemma for `shutdownInLoop`**: with no send waiting and nothing discarded,
`shutdownWrite` comes when everything has been written. -/
theorem Inv.shutdownInLoop {s : State Tid} (h : Inv s) (hstate : s.conn.state_ ≠ .kConnected)
    (htimely : s.conn.channel_.isWriting = false → ¬ SendWaiting s ∧ ¬ Discarded s.conn) :
    Inv { s with conn := s.conn.shutdownInLoop } := by
  have hsound := h.sound.shutdownInLoop
  rw [TcpConnection.shutdownInLoop] at hsound ⊢
  by_cases hw : s.conn.channel_.isWriting = true
  · rw [if_neg (not_not.mpr hw)]
    exact h
  · rw [if_pos hw] at hsound ⊢
    have hidle : s.conn.channel_.isWriting = false := by simpa using hw
    obtain ⟨hnone, hkept⟩ := htimely hidle
    have hwaiting := h.waiting hkept
    -- as nothing was discarded, an idle channel means that nothing waits
    have hempty : s.conn.outputBuffer_.readableBytes = 0 := by
      rw [ValidBuffer.readableBytes_eq_zero]
      by_contra hne
      exact hw (hwaiting.mpr hne)
    refine h.conn hsound (went_emit _ _) (h.orderly.concat ⟨hempty, ?_⟩) (fun _ => hwaiting)
      (fun hne => hne) (by simp) (fun n _ => ⟨hstate, hidle, hnone⟩)
    intro id hsub
    have hid : .sendReturned id ∈ s.conn.trace := hsub.subset List.mem_cons_self
    -- a send that has returned is handled, given up or queued
    obtain hid | hid | ⟨buf, hbuf⟩ := h.returned id hid
    · exact hid
    · exact absurd ⟨_, hid, rfl⟩ hkept
    · exact absurd (Or.inr ⟨id, buf, hbuf⟩) hnone

/-- Draining writes only while the channel is writing, so before `shutdownWrite`. -/
theorem Inv.handleWriteDrain {s : State Tid} (h : Inv s) (result : WriteResult) :
    Inv { s with conn := (s.conn.handleWriteDrain result).1 } := by
  by_cases hw : s.conn.channel_.isWriting = true
  · have ho := handleWriteDrain_spec hw result
    have hopen : ∀ n, .shutdownWrite n ∉ s.conn.trace := by
      intro n hn
      rw [(h.shut n hn).2.1] at hw
      cases hw
    refine h.conn (h.sound.handleWriteDrain result) ho.went (h.orderly.concat hopen)
      (fun hd => (h.waiting fun hd' => hd (hd'.went ho.went)).handleWriteDrain result)
      (fun hne => ho.state_eq ▸ hne) (by simp) ?_
    rintro n (hn | hn)
    · exact absurd hn (hopen n)
    · simp at hn
  · rw [handleWriteDrain_idle (by simpa using hw)]
    exact h

theorem Inv.handleClose {s : State Tid} (h : Inv s) (acts : List UserAct) :
    Inv { s with conn := s.conn.handleClose acts } := by
  obtain ⟨hstate, hout, hidle, _, htrace⟩ := h.sound.handleClose_spec acts
  have hwent : Went s.conn [.handleClose s.conn.outputBuffer_.readableBytes,
      .epollCtl (s.conn.channel_.index_.updateOp kNoneEvent) s.conn.channel_.fd_ true,
      .connectionCallback false, .closeCallback] (s.conn.handleClose acts) :=
    ⟨[], fun _ he => absurd he List.not_mem_nil, by rw [htrace, List.append_nil]⟩
  have hne : (s.conn.handleClose acts).state_ ≠ .kConnected := by rw [hstate]; decide
  refine h.conn (h.sound.handleClose acts) hwent (h.orderly.append_free (by simp [Orderly]))
    (fun hd => ?_) (fun _ => hne) (by simp) ?_
  · -- nothing is discarded only if nothing was waiting
    have hempty : s.conn.outputBuffer_.readableBytes = 0 := by
      by_contra hpos
      exact hd ⟨_, hwent.mem_new List.mem_cons_self, by simpa [discards] using hpos⟩
    rw [Waiting, hidle, hout, ValidBuffer.readableBytes_eq_zero.mp hempty]
    decide
  · rintro n (hn | hn)
    · exact ⟨hne, hidle, (h.shut n hn).2.2⟩
    · simp at hn

/-! ### All steps -/

variable [DecidableEq Tid]

/-- The second half of `send`: at once on the loop thread, through the queue elsewhere. -/
theorem Inv.sendRun {s s' : State Tid} (h : Inv s) {t : Option Tid} {result : WriteResult}
    (hstep : act s (.sendRun t result) = some s') : Inv s' := by
  unfold act at hstep
  dsimp only at hstep
  split at hstep
  · rename_i id buf hpc
    cases hstep
    obtain ⟨hrun, hid⟩ := h.sendFor (Or.inl ⟨none, id, buf, hpc⟩) id buf result
    refine hrun.setPc none (.sendDone id) s.nextId ?_ nofun nofun
    intro id' heq
    cases heq
    exact hid.imp_right Or.inl
  · rename_i id buf t hpc
    cases hstep
    have hpush := h.push (w := .sendInLoop id buf) (Or.inr ⟨nofun, Or.inl ⟨some t, id, buf, hpc⟩⟩)
    refine hpush.setPc (some t) (.sendDone id) s.nextId ?_ nofun nofun
    intro id' heq
    cases heq
    exact Or.inr (Or.inr ⟨buf, List.mem_append_right _ List.mem_cons_self⟩)
  · cases hstep

/-- The last part of `shutdown`: at once on the loop thread, through the queue elsewhere. -/
theorem Inv.shutdownRun {s s' : State Tid} (h : Inv s) {t : Option Tid}
    (htimely : Timely s (.shutdownRun t)) (hstep : act s (.shutdownRun t) = some s') :
    Inv s' := by
  unfold act at hstep
  dsimp only at hstep
  split at hstep
  · rename_i hpc
    cases hstep
    exact (h.shutdownInLoop (h.stored (Or.inr ⟨none, hpc⟩)) (htimely hpc)).setPc_plain none
      (Or.inl rfl)
  · rename_i t hpc
    cases hstep
    exact (h.push (Or.inl ⟨rfl, Or.inr ⟨some t, hpc⟩⟩)).setPc_plain (some t) (Or.inl rfl)
  · cases hstep

/-- The loop runs the first functor. -/
theorem Inv.runFunctor {s s' : State Tid} (h : Inv s) {result : WriteResult}
    (htimely : Timely s (.runFunctor result)) (hstep : act s (.runFunctor result) = some s') :
    Inv s' := by
  unfold act at hstep
  dsimp only at hstep
  split at hstep
  · split at hstep
    · cases hstep
    · rename_i id buf rest hqueue
      cases hstep
      have hmem : Work.sendInLoop id buf ∈ s.queue := by
        rw [hqueue]
        exact List.mem_cons_self
      obtain ⟨hrun, hid⟩ := h.sendFor (Or.inr ⟨id, buf, hmem⟩) id buf result
      refine hrun.pop hqueue ?_
      intro id' buf' heq
      cases heq
      exact hid
    · rename_i rest hqueue
      cases hstep
      have hmem : Work.shutdownInLoop ∈ s.queue := by
        rw [hqueue]
        exact List.mem_cons_self
      have hrun := h.shutdownInLoop (h.stored (Or.inl hmem))
        (htimely (by simp [RunsShutdown, hqueue]))
      exact hrun.pop hqueue nofun
  · cases hstep

theorem Inv.step {s s' : State Tid} {a : Action Tid} (h : Inv s) (htimely : Timely s a)
    (hstep : step s a = some s') : Inv s' := by
  rw [ShutdownOrder.step, if_neg (by rw [h.sound.alive]; decide)] at hstep
  cases a with
  -- the steps that write or shut the connection down
  | sendRun t result => exact h.sendRun hstep
  | shutdownRun t => exact h.shutdownRun htimely hstep
  | runFunctor result => exact h.runFunctor htimely hstep
  -- the steps of a call in front of that
  | sendTest t buf =>
    simp only [act, Option.ite_none_right_eq_some, Option.some.injEq] at hstep
    obtain ⟨_, rfl⟩ := hstep
    split
    · rename_i hstate
      exact h.setPc t _ _ nofun nofun fun _ _ _ => hstate
    · exact h
  | sendReturn t =>
    unfold act at hstep
    dsimp only at hstep
    split at hstep
    · rename_i id hpc
      cases hstep
      exact (h.emit (Or.inr ⟨id, rfl, h.done t id hpc⟩)).setPc_plain t (Or.inl rfl)
    · cases hstep
  | shutdownCall t =>
    simp only [act, Option.ite_none_right_eq_some, Option.some.injEq] at hstep
    obtain ⟨_, rfl⟩ := hstep
    exact (h.emit (Or.inl rfl)).setPc_plain t (Or.inr (Or.inl rfl))
  | shutdownTest t =>
    simp only [act, Option.ite_none_right_eq_some, Option.some.injEq] at hstep
    obtain ⟨_, rfl⟩ := hstep
    split
    · exact h.setPc_plain t (Or.inr (Or.inr (Or.inl rfl)))
    · exact h.setPc_plain t (Or.inl rfl)
  | shutdownStore t =>
    simp only [act, Option.ite_none_right_eq_some, Option.some.injEq] at hstep
    obtain ⟨_, rfl⟩ := hstep
    exact h.setState.setPc t .shutdownStored s.nextId nofun (fun _ => by simp) nofun
  -- the loop
  | handleWrite result =>
    simp only [act, Option.ite_none_right_eq_some, Option.some.injEq] at hstep
    obtain ⟨_, rfl⟩ := hstep
    have hdrain := h.handleWriteDrain result
    split
    · exact hdrain.setPc_plain none (Or.inr (Or.inr (Or.inr rfl)))
    · exact hdrain
  | testDrained =>
    simp only [act, Option.ite_none_right_eq_some, Option.some.injEq] at hstep
    obtain ⟨_, rfl⟩ := hstep
    split
    · -- the guard: nothing of an earlier `send` is still on its way
      rename_i hstate
      exact (h.shutdownInLoop (by rw [hstate]; decide) (htimely hstate)).setPc_plain none
        (Or.inl rfl)
    · exact h.setPc_plain none (Or.inl rfl)
  | handleClose acts =>
    simp only [act, Option.ite_none_right_eq_some, Option.some.injEq] at hstep
    obtain ⟨_, rfl⟩ := hstep
    exact h.handleClose acts

/-- **`shutdown` never overtakes an earlier send** in a run that executes `shutdownInLoop`, with
the channel not writing, only when no send waits and no output has been discarded. -/
theorem shutdown_after_sends (this : Ptr) (sockfd : Int) (writeComplete highWater : Bool)
    (as : List (Action Tid)) (s : State Tid)
    (htimely : Guarded step Timely (start this sockfd writeComplete highWater) as)
    (hrun : run step (start this sockfd writeComplete highWater) as = some s) :
    Justified Orderly s.conn.trace := by
  have h : Inv s := run_invariant (fun _ _ _ hi hc hs => Inv.step hi hc hs)
    (inv_start this sockfd writeComplete highWater) htimely hrun
  exact h.orderly

/-- Two threads: the send of one is queued before the shutdown of the other; its bytes go out
in two writes, and `handleWrite` shuts down. -/
def orderlyRun : List (Action Bool) :=
  [.sendTest (some true) [1, 2], .sendRun (some true) (.wrote 0), .sendReturn (some true),
    .shutdownCall (some false), .shutdownTest (some false), .shutdownStore (some false),
    .shutdownRun (some false), .runFunctor (.wrote 1), .runFunctor (.wrote 0),
    .handleWrite (.wrote 1), .testDrained]

theorem shutdown_after_sends_two_threads :
    ∃ s, run step (start 7 7 false false) orderlyRun = some s ∧
      Justified Orderly s.conn.trace := by
  have hsome : (run step (start 7 7 false false) orderlyRun).isSome = true := by
    decide +kernel
  obtain ⟨s, hs⟩ := Option.isSome_iff_exists.mp hsome
  exact ⟨s, hs, shutdown_after_sends 7 7 false false orderlyRun s (by decide +kernel) hs⟩

/-- A send of another thread has returned, its functor is queued; then the loop thread calls
`shutdown`, which runs at once. -/
def overtakingRun : List (Action Unit) :=
  [.sendTest (some ()) [1], .sendRun (some ()) (.wrote 0), .sendReturn (some ()),
    .shutdownCall none, .shutdownTest none, .shutdownStore none, .shutdownRun none,
    .runFunctor (.wrote 1)]

theorem trace_overtakingRun :
    (run step (start 7 7 false false) overtakingRun).map (·.conn.trace) =
      some [.epollCtl .ADD 7 true, .connectionCallback true, .sendReturned 0, .shutdownCalled,
        .shutdownWrite 0, .sendHandled 0, .write [1] (.wrote 1)] := by
  decide +kernel

/-- The send is handled only after `shutdownWrite`, and its write follows it. -/
theorem shutdown_overtakes_send :
    ∃ s, run step (start 7 7 false false) overtakingRun = some s ∧
      ¬ Justified Orderly s.conn.trace := by
  obtain ⟨s, hs, htrace⟩ := Option.map_eq_some_iff.mp trace_overtakingRun
  refine ⟨s, hs, fun horderly => ?_⟩
  have hshut := horderly [.epollCtl .ADD 7 true, .connectionCallback true, .sendReturned 0,
    .shutdownCalled] (.shutdownWrite 0) [.sendHandled 0, .write [1] (.wrote 1)] htrace
  have hhandled := hshut.2 0 (by decide)
  simp at hhandled

end CppInOne.Mymuduo.ShutdownOrder
