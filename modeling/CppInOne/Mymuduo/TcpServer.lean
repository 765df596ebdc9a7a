import Mathlib.Data.Fintype.Option
import Mathlib.Data.List.AList
import Mathlib.Logic.Function.Basic
import CppInOne.Lib.ByteString
import CppInOne.Lib.Trace
import CppInOne.Lib.Transition
import CppInOne.Mymuduo.TcpConnection

/-!
# A TCP server on its loops

`TcpServer` with the base loop and `n` sub-loops. A step is a test of `quit_`, a return of
`epoll_wait`, the handling of one event or one functor on a loop, or a part of the destructor
that touches one loop. `epoll_wait` has a timeout and may return at any time, so the wakeup
descriptors are left out.

Of the user's code the destruction of the server, the queueing of functors, the copying of
`TcpConnectionPtr`s and the calls of `send` and `shutdown` on other threads are steps. Such a
call tests `state_`, and later queues a functor that is bound to a raw `this`. A call on the
thread of the loop finds the channel in the poller, where it leaves it.

## Main definitions

- `State`, `step` — the server, its loops and what they do
- `State.Owned` — somebody has a `TcpConnectionPtr` to the connection
- `executed` — what one loop has executed for the connections, from the trace
-/

namespace CppInOne.Mymuduo
open ByteString

/-! ## Addresses -/

/-- `sin_addr` byte by byte, and `sin_port` in host order. -/
structure InetAddress where
  sin_addr : UInt8 × UInt8 × UInt8 × UInt8
  sin_port : UInt16
  deriving DecidableEq, Repr

namespace InetAddress

/-- The text of `inet_ntop`. -/
def toIp (addr : InetAddress) : List UInt8 :=
  let (a, b, c, d) := addr.sin_addr
  decimal a.toNat ++ ascii "." ++ decimal b.toNat ++ ascii "." ++ decimal c.toNat ++ ascii "." ++
    decimal d.toNat

def toIpPort (addr : InetAddress) : List UInt8 :=
  addr.toIp ++ ascii ":" ++ decimal addr.sin_port.toNat

end InetAddress

namespace TcpServer
open Function

/-- A loop, and the thread it runs on: `none` is `loop_`, `some i` is `loops_[i]` of
`threadPool_`. -/
abbrev LoopId (n : Nat) := Option (Fin n)

/-- The fields of a `TcpConnection` that never change, and which object it is: `id` counts
the connections accepted before. -/
structure Conn (n : Nat) where
  id : Nat
  name_ : List UInt8
  loop_ : LoopId n
  deriving DecidableEq, Repr

inductive Functor (n : Nat) where
  | connectEstablished (conn : Conn n)
  | connectDestroyed (conn : Conn n)
  | removeConnectionInLoop (conn : Conn n)
  /-- Bound to a raw `this`; `enables` says whether it comes to `enableWriting`, which is a matter
  of the kernel and of what is in `outputBuffer_`. -/
  | sendInLoop (conn : Conn n) (enables : Bool)
  /-- Bound to a raw `this`. -/
  | shutdownInLoop (conn : Conn n)
  /-- A functor of somebody else. -/
  | user
  deriving DecidableEq, Repr

variable {n : Nat}

/-- The connection that a functor has a `TcpConnectionPtr` to. -/
def Functor.owns : Functor n → Option (Conn n)
  | .connectEstablished conn | .connectDestroyed conn | .removeConnectionInLoop conn => some conn
  | .sendInLoop _ _ | .shutdownInLoop _ | .user => none

/-- A call on another thread that is behind its test of `state_`. -/
inductive Call (n : Nat) where
  | send (conn : Conn n)
  /-- before its store -/
  | shutdown (conn : Conn n)
  /-- behind its store -/
  | shutdownStored (conn : Conn n)
  deriving DecidableEq, Repr

def Call.conn : Call n → Conn n
  | .send conn | .shutdown conn | .shutdownStored conn => conn

/-- Where a loop is in `loop()`. -/
inductive LoopPc (n : Nat) where
  /-- before the test `!quit_` -/
  | check
  | poll
  /-- `activeChannels` are the channels of connections still to be handled -/
  | dispatch (activeChannels : List (Conn n))
  /-- in `handleClose` of `conn`, before its `closeCallback_` -/
  | handleClose (conn : Conn n) (activeChannels : List (Conn n))
  /-- in `doPendingFunctors`, behind the swap -/
  | batch (functors : List (Functor n))
  | stopped
  deriving DecidableEq, Repr

/-- The functors taken out of the queue that are still to be executed. -/
def LoopPc.functors : LoopPc n → List (Functor n)
  | .batch functors => functors
  | _ => []

/-- The connections whose event is still to be handled, or being handled. -/
def LoopPc.active : LoopPc n → List (Conn n)
  | .dispatch active => active
  | .handleClose conn active => conn :: active
  | _ => []

structure Loop (n : Nat) where
  quit_ : Bool
  pendingFunctors_ : List (Functor n)
  pc : LoopPc n
  /-- The connections whose channels the poller knows. -/
  channels_ : List (Conn n)

def Loop.queue (loop : Loop n) : List (Functor n) := loop.pc.functors ++ loop.pendingFunctors_

/-- How far the server's life has come. -/
inductive Life (n : Nat) where
  | alive
  /-- in the body of the destructor; `items` are still to be visited -/
  | destroying (items : List (Conn n))
  /-- the destructor of `threadPool_` is about to call `quit` on this sub-loop -/
  | quitting (i : Nat)
  | joining (i : Nat)
  | destroyed
  deriving DecidableEq, Repr

inductive Event (n : Nat) where
  | accepted (conn : Conn n)
  /-- A functor is executed, from a queue or at once. -/
  | executed (thread : LoopId n) (functor : Functor n)
  | removeConnection (thread : LoopId n) (conn : Conn n)
  /-- The destructor begins, with these connections in `connections_`. -/
  | destructor (items : List (Conn n))
  | destructed
  | loopReturned (l : LoopId n)
  deriving DecidableEq, Repr

structure State (n : Nat) where
  name_ : List UInt8
  ipPort_ : List UInt8
  nextConnId_ : Int32
  /-- of `threadPool_` -/
  next_ : Nat
  connections_ : AList fun _ : List UInt8 => Conn n
  /-- of each connection -/
  state_ : Conn n → StateE
  loops : LoopId n → Loop n
  life : Life n
  /-- The pointers that user code has. -/
  held : List (Conn n)
  calls : List (Call n)
  accepts : Nat
  trace : List (Event n)

/-- A started server: every loop is in `loop()`. -/
def start (n : Nat) (nameArg : List UInt8) (listenAddr : InetAddress) : State n where
  name_ := nameArg
  ipPort_ := listenAddr.toIpPort
  nextConnId_ := 1
  next_ := 0
  connections_ := ∅
  state_ _ := .kConnecting
  loops _ := { quit_ := false, pendingFunctors_ := [], pc := .check, channels_ := [] }
  life := .alive
  held := []
  calls := []
  accepts := 0
  trace := []

namespace State

def emit (s : State n) (e : Event n) : State n := { s with trace := s.trace ++ [e] }

def setLoop (s : State n) (l : LoopId n) (f : Loop n → Loop n) : State n :=
  { s with loops := update s.loops l (f (s.loops l)) }

def setPc (s : State n) (l : LoopId n) (pc : LoopPc n) : State n :=
  s.setLoop l fun loop => { loop with pc }

def setState (s : State n) (conn : Conn n) (state : StateE) : State n :=
  { s with state_ := update s.state_ conn state }

/-! ## Owners -/

/-- `connections_` has a pointer to the connection; the destructor resets them one by one. -/
def Registers (s : State n) (conn : Conn n) : Prop :=
  match s.life with
  | .alive => s.connections_.lookup conn.name_ = some conn
  | .destroying items => conn ∈ items
  | .quitting _ | .joining _ | .destroyed => False

instance (s : State n) (conn : Conn n) : Decidable (s.Registers conn) :=
  match h : s.life with
  | .alive => decidable_of_iff (s.connections_.lookup conn.name_ = some conn)
      (by rw [Registers, h])
  | .destroying items => decidable_of_iff (conn ∈ items) (by rw [Registers, h])
  | .quitting _ | .joining _ | .destroyed => .isFalse (by simp [Registers, h])

/-- The pointers on the stack of a loop that runs a functor or a callback are not counted. -/
def Owned (s : State n) (conn : Conn n) : Prop :=
  s.Registers conn ∨ conn ∈ s.held ∨ ∃ l, ∃ cb ∈ (s.loops l).queue, cb.owns = some conn

instance (s : State n) (conn : Conn n) : Decidable (s.Owned conn) :=
  inferInstanceAs (Decidable (_ ∨ _ ∨ _))

/-! ## The functions of the source -/

def queueInLoop (s : State n) (l : LoopId n) (cb : Functor n) : State n :=
  s.setLoop l fun loop => { loop with pendingFunctors_ := loop.pendingFunctors_ ++ [cb] }

def connectEstablished (s : State n) (conn : Conn n) : State n :=
  (s.setState conn .kConnected).setLoop conn.loop_ fun loop =>
    { loop with channels_ := conn :: loop.channels_ }

/-- A connection that is found in another state than `kConnected` stays in it. -/
def connectDestroyed (s : State n) (conn : Conn n) : State n :=
  (s.setState conn (if s.state_ conn = .kConnected then .kDisconnceted else s.state_ conn)).setLoop
    conn.loop_ fun loop => { loop with channels_ := loop.channels_.filter (· ≠ conn) }

/-- `enableWriting` gives a channel to the poller that the poller does not know (any more). -/
def sendInLoop (s : State n) (conn : Conn n) (enables : Bool) : State n :=
  if s.state_ conn = .kDisconnceted ∨ enables = false ∨
    conn ∈ (s.loops conn.loop_).channels_ then s
  else s.setLoop conn.loop_ fun loop => { loop with channels_ := conn :: loop.channels_ }

/-- Of a call on a destroyed server no more than the call itself is modelled. -/
def removeConnectionInLoop (s : State n) (conn : Conn n) : State n :=
  if s.life = .destroyed then s
  else
    { s with connections_ := s.connections_.erase conn.name_ }.queueInLoop conn.loop_
      (.connectDestroyed conn)

/-- What a functor does. `shutdownInLoop` closes the write end of the socket, if at all. -/
def run (s : State n) : Functor n → State n
  | .connectEstablished conn => s.connectEstablished conn
  | .connectDestroyed conn => s.connectDestroyed conn
  | .removeConnectionInLoop conn => s.removeConnectionInLoop conn
  | .sendInLoop conn enables => s.sendInLoop conn enables
  | .shutdownInLoop _ | .user => s

/-- `cb()` -/
def call (s : State n) (thread : LoopId n) (cb : Functor n) : State n :=
  (s.emit (.executed thread cb)).run cb

def runInLoop (s : State n) (thread l : LoopId n) (cb : Functor n) : State n :=
  if thread = l then s.call thread cb else s.queueInLoop l cb

def removeConnection (s : State n) (thread : LoopId n) (conn : Conn n) : State n :=
  let s := s.emit (.removeConnection thread conn)
  if s.life = .destroyed then s else s.runInLoop thread none (.removeConnectionInLoop conn)

/-- `getNextLoop`, with the new value of `next_`. -/
def getNextLoop (s : State n) : LoopId n × Nat :=
  if h : s.next_ < n then (some ⟨s.next_, h⟩, if n ≤ s.next_ + 1 then 0 else s.next_ + 1)
  else (none, s.next_)

def connName (name_ ipPort_ : List UInt8) (nextConnId_ : Int32) : List UInt8 :=
  name_ ++ snprintf 64 (ascii "-" ++ ipPort_ ++ ascii "#" ++ decimal nextConnId_.toInt)

/-- The connection that `newConnection` makes. -/
def newConn (s : State n) : Conn n where
  id := s.accepts
  name_ := connName s.name_ s.ipPort_ s.nextConnId_
  loop_ := s.getNextLoop.1

/-- `connections_[connName] = conn`, with the counters advanced. -/
def register (s : State n) (conn : Conn n) : State n :=
  { s with
    next_ := s.getNextLoop.2
    nextConnId_ := s.nextConnId_ + 1
    connections_ := s.connections_.insert conn.name_ conn
    accepts := s.accepts + 1 }.emit (.accepted conn)

def newConnection (s : State n) : State n :=
  (s.register s.newConn).runInLoop none s.newConn.loop_ (.connectEstablished s.newConn)

end State

/-! ## Steps -/

inductive LoopAction (n : Nat) where
  | testQuit
  | pollReturn (activeChannels : List (Conn n))
  /-- Handle the next event; it may close the connection. -/
  | handleEvent (closes : Bool)
  /-- `closeCallback_`; the same event may close the connection again. -/
  | closeCallback (again : Bool)
  | swapFunctors
  | runFunctor
  | endBatch
  deriving DecidableEq, Repr

/-- A part of what other threads do. -/
inductive UserAction (n : Nat) where
  /-- A `TcpConnectionPtr` is copied. -/
  | hold (conn : Conn n)
  | release (conn : Conn n)
  | testSend (conn : Conn n)
  | queueSend (conn : Conn n) (enables : Bool)
  | testShutdown (conn : Conn n)
  | storeDisconnecting (conn : Conn n)
  | queueShutdown (conn : Conn n)
  deriving DecidableEq, Repr

inductive Action (n : Nat) where
  | loop (l : LoopId n) (a : LoopAction n)
  /-- The acceptor's event on the base loop. -/
  | accept
  /-- Somebody queues a functor of his own. -/
  | queueUser (l : LoopId n)
  | user (a : UserAction n)
  | destructor
  | destroyItem (conn : Conn n)
  | endBody
  | quitLoop
  | joinLoop
  | finish
  deriving DecidableEq, Repr

def loopStep (s : State n) (l : LoopId n) : LoopAction n → Option (State n)
  | .testQuit =>
    match (s.loops l).pc with
    | .check =>
      some (if (s.loops l).quit_ then (s.setPc l .stopped).emit (.loopReturned l)
        else s.setPc l .poll)
    | _ => none
  | .pollReturn active =>
    match (s.loops l).pc with
    | .poll =>
      if ∀ conn ∈ active, conn ∈ (s.loops l).channels_ then some (s.setPc l (.dispatch active))
      else none
    | _ => none
  | .handleEvent closes =>
    match (s.loops l).pc with
    | .dispatch (conn :: rest) =>
      some (if closes then (s.setState conn .kDisconnceted).setPc l (.handleClose conn rest)
        else s.setPc l (.dispatch rest))
    | _ => none
  | .closeCallback again =>
    match (s.loops l).pc with
    | .handleClose conn rest =>
      some (if again then
          ((s.removeConnection l conn).setState conn .kDisconnceted).setPc l
            (.handleClose conn rest)
        else (s.removeConnection l conn).setPc l (.dispatch rest))
    | _ => none
  | .swapFunctors =>
    match (s.loops l).pc with
    | .dispatch [] =>
      some (s.setLoop l fun loop =>
        { loop with pendingFunctors_ := [], pc := .batch loop.pendingFunctors_ })
    | _ => none
  | .runFunctor =>
    match (s.loops l).pc with
    | .batch (functor :: rest) => some ((s.setPc l (.batch rest)).call l functor)
    | _ => none
  | .endBatch =>
    match (s.loops l).pc with
    | .batch [] => some (s.setPc l .check)
    | _ => none

/-- A thread calls `send` and `shutdown` through a pointer that user code has. -/
def userStep (s : State n) : UserAction n → Option (State n)
  | .hold conn => if s.Owned conn then some { s with held := conn :: s.held } else none
  | .release conn =>
    if conn ∈ s.held then some { s with held := s.held.erase conn } else none
  | .testSend conn =>
    if conn ∈ s.held then
      some (if s.state_ conn = .kConnected then { s with calls := .send conn :: s.calls } else s)
    else none
  | .queueSend conn enables =>
    if .send conn ∈ s.calls then
      some ({ s with calls := s.calls.erase (.send conn) }.queueInLoop conn.loop_
        (.sendInLoop conn enables))
    else none
  | .testShutdown conn =>
    if conn ∈ s.held then
      some (if s.state_ conn = .kConnected then { s with calls := .shutdown conn :: s.calls }
        else s)
    else none
  | .storeDisconnecting conn =>
    if .shutdown conn ∈ s.calls then
      some ({ s with calls := .shutdownStored conn :: s.calls.erase (.shutdown conn) }.setState
        conn .kDisconnecting)
    else none
  | .queueShutdown conn =>
    if .shutdownStored conn ∈ s.calls then
      some ({ s with calls := s.calls.erase (.shutdownStored conn) }.queueInLoop conn.loop_
        (.shutdownInLoop conn))
    else none

/-- The destructor is running, on the thread of the base loop. -/
def Life.inDestructor : Life n → Bool
  | .destroying _ | .quitting _ | .joining _ => true
  | .alive | .destroyed => false

def step (s : State n) : Action n → Option (State n)
  | .loop l a => if l = none ∧ s.life.inDestructor then none else loopStep s l a
  | .accept =>
    match (s.loops none).pc, s.life with
    | .dispatch _, .alive => some s.newConnection
    | _, _ => none
  | .queueUser l => some (s.queueInLoop l .user)
  | .user a => userStep s a
  | .destructor =>
    match s.life with
    | .alive =>
      let items := s.connections_.entries.map Sigma.snd
      some ({ s with life := .destroying items }.emit (.destructor items))
    | _ => none
  | .destroyItem conn =>
    match s.life with
    | .destroying items =>
      if conn ∈ items then
        some ({ s with life := .destroying (items.erase conn) }.runInLoop none conn.loop_
          (.connectDestroyed conn))
      else none
    | _ => none
  | .endBody =>
    match s.life with
    | .destroying [] => some { s with life := .quitting 0 }
    | _ => none
  | .quitLoop =>
    match s.life with
    | .quitting i =>
      if h : i < n then
        some ({ s with life := .joining i }.setLoop (some ⟨i, h⟩) fun loop =>
          { loop with quit_ := true })
      else none
    | _ => none
  | .joinLoop =>
    match s.life with
    | .joining i =>
      if h : i < n then
        if (s.loops (some ⟨i, h⟩)).pc = .stopped then some { s with life := .quitting (i + 1) }
        else none
      else none
    | _ => none
  | .finish =>
    match s.life with
    | .quitting i =>
      if i = n then some ({ s with life := .destroyed }.emit .destructed) else none
    | _ => none

/-! ### The branches of a step -/

/-- The branches of `loopStep`. -/
inductive LoopStep (s : State n) (l : LoopId n) : State n → Prop where
  | stop (hpc : (s.loops l).pc = .check) (hquit : (s.loops l).quit_ = true) :
    LoopStep s l ((s.setPc l .stopped).emit (.loopReturned l))
  | poll (hpc : (s.loops l).pc = .check) : LoopStep s l (s.setPc l .poll)
  | pollReturn (active : List (Conn n)) (hpc : (s.loops l).pc = .poll)
    (hactive : ∀ conn ∈ active, conn ∈ (s.loops l).channels_) :
    LoopStep s l (s.setPc l (.dispatch active))
  | handleEvent (conn : Conn n) (rest : List (Conn n))
    (hpc : (s.loops l).pc = .dispatch (conn :: rest)) : LoopStep s l (s.setPc l (.dispatch rest))
  | beginClose (conn : Conn n) (rest : List (Conn n))
    (hpc : (s.loops l).pc = .dispatch (conn :: rest)) :
    LoopStep s l ((s.setState conn .kDisconnceted).setPc l (.handleClose conn rest))
  | close (conn : Conn n) (rest : List (Conn n)) (pc : LoopPc n) (state_ : Conn n → StateE)
    (hpc : (s.loops l).pc = .handleClose conn rest)
    (hnext : pc = .handleClose conn rest ∨ pc = .dispatch rest)
    (hstate : ∀ c, state_ c = .kConnected → (s.removeConnection l conn).state_ c = .kConnected) :
    LoopStep s l ({ s.removeConnection l conn with state_ }.setPc l pc)
  | swap (hpc : (s.loops l).pc = .dispatch []) :
    LoopStep s l (s.setLoop l fun loop =>
      { loop with pendingFunctors_ := [], pc := .batch loop.pendingFunctors_ })
  | runFunctor (functor : Functor n) (rest : List (Functor n))
    (hpc : (s.loops l).pc = .batch (functor :: rest)) :
    LoopStep s l ((s.setPc l (.batch rest)).call l functor)
  | endBatch (hpc : (s.loops l).pc = .batch []) : LoopStep s l (s.setPc l .check)

/-- The branches of `userStep`: what nobody but the threads themselves looks at, or a functor with
a raw `this`. -/
inductive UserStep (s : State n) : State n → Prop where
  | move (held : List (Conn n)) (calls : List (Call n)) (state_ : Conn n → StateE)
    (hcalls : ∀ c ∈ calls, (∃ c' ∈ s.calls, c'.conn = c.conn) ∨ s.state_ c.conn = .kConnected)
    (hstate : ∀ conn, state_ conn = .kConnected → s.state_ conn = .kConnected) :
    UserStep s { s with held, calls, state_ }
  | queue (c : Call n) (cb : Functor n) (hmem : c ∈ s.calls)
    (hcb : (∃ enables, cb = .sendInLoop c.conn enables) ∨ cb = .shutdownInLoop c.conn) :
    UserStep s ({ s with calls := s.calls.erase c }.queueInLoop c.conn.loop_ cb)

/-- The branches of `step`. -/
inductive Step (s : State n) : Action n → State n → Prop where
  | loop (l : LoopId n) (a : LoopAction n) (s' : State n)
    (hfree : l = none → s.life.inDestructor = false) (h : LoopStep s l s') :
    Step s (.loop l a) s'
  | accept (active : List (Conn n)) (hpc : (s.loops none).pc = .dispatch active)
    (hlife : s.life = .alive) : Step s .accept s.newConnection
  | queueUser (l : LoopId n) : Step s (.queueUser l) (s.queueInLoop l .user)
  | user (a : UserAction n) (s' : State n) (h : UserStep s s') : Step s (.user a) s'
  | destructor (hlife : s.life = .alive) :
    Step s .destructor ({ s with life := .destroying (s.connections_.entries.map Sigma.snd) }.emit
      (.destructor (s.connections_.entries.map Sigma.snd)))
  | destroyItem (conn : Conn n) (items : List (Conn n)) (hlife : s.life = .destroying items)
    (hmem : conn ∈ items) :
    Step s (.destroyItem conn) ({ s with life := .destroying (items.erase conn) }.runInLoop none
      conn.loop_ (.connectDestroyed conn))
  | endBody (hlife : s.life = .destroying []) : Step s .endBody { s with life := .quitting 0 }
  | quitLoop (i : Fin n) (hlife : s.life = .quitting i) :
    Step s .quitLoop ({ s with life := .joining i }.setLoop (some i) fun loop =>
      { loop with quit_ := true })
  | joinLoop (i : Fin n) (hlife : s.life = .joining i) (hpc : (s.loops (some i)).pc = .stopped) :
    Step s .joinLoop { s with life := .quitting (i + 1) }
  | finish (hlife : s.life = .quitting n) :
    Step s .finish ({ s with life := .destroyed }.emit .destructed)

/-- Only `connectEstablished` stores `kConnected`. -/
theorem State.setState_kConnected {s : State n} {conn c : Conn n} {state : StateE}
    (hstate : state = .kConnected → s.state_ conn = .kConnected)
    (h : (s.setState conn state).state_ c = .kConnected) : s.state_ c = .kConnected := by
  by_cases heq : c = conn
  · subst heq
    exact hstate (by simpa [setState] using h)
  · simpa [setState, heq] using h

theorem UserStep.of_userStep {s s' : State n} {a : UserAction n} (hs : userStep s a = some s') :
    UserStep s s' := by
  -- the calls that are left were made before
  have herase : ∀ c, ∀ c' ∈ s.calls.erase c,
      (∃ c'' ∈ s.calls, c''.conn = c'.conn) ∨ s.state_ c'.conn = .kConnected :=
    fun _ c' hc' => Or.inl ⟨c', List.mem_of_mem_erase hc', rfl⟩
  have hcalls : ∀ c ∈ s.calls,
      (∃ c' ∈ s.calls, c'.conn = c.conn) ∨ s.state_ c.conn = .kConnected :=
    fun c hc => Or.inl ⟨c, hc, rfl⟩
  cases a with
  | hold conn =>
    obtain ⟨-, hs⟩ := Option.ite_none_right_eq_some.mp hs
    cases hs
    exact .move (conn :: s.held) s.calls s.state_ hcalls fun _ => id
  | release conn =>
    obtain ⟨-, hs⟩ := Option.ite_none_right_eq_some.mp hs
    cases hs
    exact .move (s.held.erase conn) s.calls s.state_ hcalls fun _ => id
  | testSend conn | testShutdown conn =>
    obtain ⟨-, hs⟩ := Option.ite_none_right_eq_some.mp hs
    split at hs
    · next hconnected =>
      cases hs
      refine .move s.held (_ :: s.calls) s.state_ (List.forall_mem_cons.mpr ⟨?_, hcalls⟩)
        fun _ => id
      exact Or.inr hconnected
    · cases hs
      exact .move s.held s.calls s.state_ hcalls fun _ => id
  | queueSend conn enables =>
    obtain ⟨hmem, hs⟩ := Option.ite_none_right_eq_some.mp hs
    cases hs
    exact .queue _ _ hmem (Or.inl ⟨enables, rfl⟩)
  | storeDisconnecting conn =>
    obtain ⟨hmem, hs⟩ := Option.ite_none_right_eq_some.mp hs
    cases hs
    refine .move s.held _ _ (List.forall_mem_cons.mpr ⟨?_, herase _⟩) fun c hc => ?_
    · exact Or.inl ⟨_, hmem, rfl⟩
    · exact State.setState_kConnected (by simp) hc
  | queueShutdown conn =>
    obtain ⟨hmem, hs⟩ := Option.ite_none_right_eq_some.mp hs
    cases hs
    exact .queue _ _ hmem (Or.inr rfl)

theorem LoopStep.of_loopStep {s s' : State n} {l : LoopId n} {a : LoopAction n}
    (hs : loopStep s l a = some s') : LoopStep s l s' := by
  cases a with
  | testQuit =>
    simp only [loopStep] at hs
    split at hs
    · next hpc =>
      cases hs
      split
      · exact .stop hpc ‹_›
      · exact .poll hpc
    · cases hs
  | pollReturn active =>
    simp only [loopStep] at hs
    split at hs
    · next hpc =>
      obtain ⟨hactive, hs⟩ := Option.ite_none_right_eq_some.mp hs
      cases hs
      exact .pollReturn active hpc hactive
    · cases hs
  | handleEvent closes =>
    simp only [loopStep] at hs
    split at hs
    · next conn rest hpc =>
      cases hs
      -- `handleClose` stores the state first, and calls `closeCallback_` in a step of its own
      cases closes with
      | true => exact .beginClose conn rest hpc
      | false => exact .handleEvent conn rest hpc
    · cases hs
  | closeCallback again =>
    simp only [loopStep] at hs
    split at hs
    · next conn rest hpc =>
      cases hs
      cases again with
      | true =>
        refine .close conn rest _ _ hpc (Or.inl rfl) fun c hc => ?_
        exact State.setState_kConnected (by simp) hc
      | false => exact .close conn rest _ _ hpc (Or.inr rfl) fun _ hc => hc
    · cases hs
  | swapFunctors =>
    simp only [loopStep] at hs
    split at hs
    · next hpc =>
      cases hs
      exact .swap hpc
    · cases hs
  | runFunctor =>
    simp only [loopStep] at hs
    split at hs
    · next functor rest hpc =>
      cases hs
      exact .runFunctor functor rest hpc
    · cases hs
  | endBatch =>
    simp only [loopStep] at hs
    split at hs
    · next hpc =>
      cases hs
      exact .endBatch hpc
    · cases hs

theorem Step.of_step {s s' : State n} {a : Action n} (hs : step s a = some s') :
    Step s a s' := by
  cases a with
  | loop l a =>
    obtain ⟨hfree, hs⟩ := Option.ite_none_left_eq_some.mp hs
    -- the base loop does nothing while its thread is in the destructor
    refine .loop l a s' (fun hl => ?_) (.of_loopStep hs)
    exact Bool.eq_false_iff.mpr fun hlife => hfree ⟨hl, hlife⟩
  | accept =>
    simp only [step] at hs
    split at hs
    · next hpc hlife =>
      cases hs
      exact .accept _ hpc hlife
    · cases hs
  | queueUser l =>
    cases hs
    exact .queueUser l
  | user a => exact .user a s' (.of_userStep hs)
  -- `~TcpServer`: the map, then the pool with a `quit` and a `join` for each loop
  | destructor =>
    simp only [step] at hs
    split at hs
    · next hlife =>
      cases hs
      exact .destructor hlife
    · cases hs
  | destroyItem conn =>
    simp only [step] at hs
    split at hs
    · next items hlife =>
      obtain ⟨hmem, hs⟩ := Option.ite_none_right_eq_some.mp hs
      cases hs
      exact .destroyItem conn items hlife hmem
    · cases hs
  | endBody =>
    simp only [step] at hs
    split at hs
    · next hlife =>
      cases hs
      exact .endBody hlife
    · cases hs
  | quitLoop =>
    simp only [step] at hs
    split at hs
    · next i hlife =>
      obtain ⟨hi, hs⟩ := Option.dite_none_right_eq_some.mp hs
      cases hs
      exact .quitLoop ⟨i, hi⟩ hlife
    · cases hs
  | joinLoop =>
    simp only [step] at hs
    split at hs
    · next i hlife =>
      obtain ⟨hi, hs⟩ := Option.dite_none_right_eq_some.mp hs
      obtain ⟨hpc, hs⟩ := Option.ite_none_right_eq_some.mp hs
      cases hs
      exact .joinLoop ⟨i, hi⟩ hlife hpc
    · cases hs
  | finish =>
    simp only [step] at hs
    split at hs
    · next i hlife =>
      obtain ⟨rfl, hs⟩ := Option.ite_none_right_eq_some.mp hs
      cases hs
      exact .finish hlife
    · cases hs

/-! ## What a loop executes -/

/-- What the thread of `l` has executed so far. -/
def executed (l : LoopId n) (t : List (Event n)) : List (Functor n) :=
  t.filterMap fun
    | .executed thread functor => if thread = l then some functor else none
    | _ => none

/-- What a loop has executed, and behind it what it is going to execute. -/
def State.script (s : State n) (l : LoopId n) : List (Functor n) :=
  executed l s.trace ++ (s.loops l).queue

theorem mem_executed {l : LoopId n} {t : List (Event n)} {functor : Functor n} :
    functor ∈ executed l t ↔ .executed l functor ∈ t := by
  simp only [executed, List.mem_filterMap]
  constructor
  · rintro ⟨e, he, hf⟩
    cases e <;> simp at hf
    obtain ⟨rfl, rfl⟩ := hf
    exact he
  · exact fun h => ⟨_, h, by simp⟩

@[simp] theorem executed_append (l : LoopId n) (t t' : List (Event n)) :
    executed l (t ++ t') = executed l t ++ executed l t' := List.filterMap_append

@[simp] theorem executed_executed (l thread : LoopId n) (functor : Functor n) :
    executed l [.executed thread functor] = if thread = l then [functor] else [] := by
  by_cases h : thread = l <;> simp [executed, h]

/-! ## Frame lemmas -/

namespace State

@[simp] theorem loops_emit (s : State n) (e : Event n) : (s.emit e).loops = s.loops := rfl

@[simp] theorem life_emit (s : State n) (e : Event n) : (s.emit e).life = s.life := rfl

@[simp] theorem connections_emit (s : State n) (e : Event n) :
    (s.emit e).connections_ = s.connections_ := rfl

@[simp] theorem trace_emit (s : State n) (e : Event n) : (s.emit e).trace = s.trace ++ [e] := rfl

@[simp] theorem loops_setState (s : State n) (conn : Conn n) (state : StateE) :
    (s.setState conn state).loops = s.loops := rfl

@[simp] theorem life_setState (s : State n) (conn : Conn n) (state : StateE) :
    (s.setState conn state).life = s.life := rfl

@[simp] theorem trace_setState (s : State n) (conn : Conn n) (state : StateE) :
    (s.setState conn state).trace = s.trace := rfl

@[simp] theorem loops_register (s : State n) (conn : Conn n) :
    (s.register conn).loops = s.loops := rfl

@[simp] theorem life_setLoop (s : State n) (l : LoopId n) (f : Loop n → Loop n) :
    (s.setLoop l f).life = s.life := rfl

@[simp] theorem connections_setLoop (s : State n) (l : LoopId n) (f : Loop n → Loop n) :
    (s.setLoop l f).connections_ = s.connections_ := rfl

@[simp] theorem trace_setLoop (s : State n) (l : LoopId n) (f : Loop n → Loop n) :
    (s.setLoop l f).trace = s.trace := rfl

theorem loops_setLoop (s : State n) (l : LoopId n) (f : Loop n → Loop n) (l' : LoopId n) :
    (s.setLoop l f).loops l' = if l' = l then f (s.loops l) else s.loops l' := by
  simp [setLoop, update_apply]

@[simp] theorem trace_queueInLoop (s : State n) (l : LoopId n) (cb : Functor n) :
    (s.queueInLoop l cb).trace = s.trace := rfl

/-- A functor does not tell what it does, only its execution is recorded. -/
@[simp] theorem trace_run (s : State n) (cb : Functor n) : (s.run cb).trace = s.trace := by
  cases cb with
  | connectEstablished | connectDestroyed | shutdownInLoop | user => rfl
  | removeConnectionInLoop conn =>
    show (s.removeConnectionInLoop conn).trace = s.trace
    unfold removeConnectionInLoop
    split <;> rfl
  | sendInLoop conn enables =>
    show (s.sendInLoop conn enables).trace = s.trace
    unfold sendInLoop
    split <;> rfl

@[simp] theorem trace_call (s : State n) (thread : LoopId n) (cb : Functor n) :
    (s.call thread cb).trace = s.trace ++ [.executed thread cb] := by
  rw [call, trace_run, trace_emit]

theorem trace_runInLoop (s : State n) (thread l : LoopId n) (cb : Functor n) :
    (s.runInLoop thread l cb).trace =
      s.trace ++ if thread = l then [.executed thread cb] else [] := by
  unfold runInLoop
  split <;> simp

/-- Calls move no loop and set no `quit_`. -/
structure Calls (s s' : State n) : Prop where
  pc : ∀ l, (s'.loops l).pc = (s.loops l).pc
  quit : ∀ l, (s'.loops l).quit_ = (s.loops l).quit_
  life : s'.life = s.life
  accepts : s'.accepts = s.accepts

theorem Calls.trans {s₁ s₂ s₃ : State n} (h : Calls s₁ s₂) (h' : Calls s₂ s₃) : Calls s₁ s₃ where
  pc l := (h'.pc l).trans (h.pc l)
  quit l := (h'.quit l).trans (h.quit l)
  life := h'.life.trans h.life
  accepts := h'.accepts.trans h.accepts

theorem calls_emit (s : State n) (e : Event n) : Calls s (s.emit e) :=
  ⟨fun _ => rfl, fun _ => rfl, rfl, rfl⟩

theorem calls_setLoop (s : State n) (l : LoopId n) (f : Loop n → Loop n)
    (hpc : (f (s.loops l)).pc = (s.loops l).pc)
    (hquit : (f (s.loops l)).quit_ = (s.loops l).quit_) : Calls s (s.setLoop l f) := by
  refine ⟨fun l' => ?_, fun l' => ?_, rfl, rfl⟩
  all_goals
    rw [loops_setLoop]
    split
    · next heq =>
      subst heq
      assumption
    · rfl

theorem calls_queueInLoop (s : State n) (l : LoopId n) (cb : Functor n) :
    Calls s (s.queueInLoop l cb) := calls_setLoop s l _ rfl rfl

theorem calls_run (s : State n) (cb : Functor n) : Calls s (s.run cb) := by
  have hstate : ∀ conn state, Calls s (s.setState conn state) :=
    fun _ _ => ⟨fun _ => rfl, fun _ => rfl, rfl, rfl⟩
  cases cb with
  | connectEstablished conn =>
    show Calls s (s.connectEstablished conn)
    apply (hstate conn .kConnected).trans
    apply calls_setLoop <;> rfl
  | connectDestroyed conn =>
    show Calls s (s.connectDestroyed conn)
    apply (hstate conn _).trans
    apply calls_setLoop <;> rfl
  | removeConnectionInLoop conn =>
    show Calls s (s.removeConnectionInLoop conn)
    unfold removeConnectionInLoop
    split
    · exact ⟨fun _ => rfl, fun _ => rfl, rfl, rfl⟩
    · have herase : Calls s { s with connections_ := s.connections_.erase conn.name_ } :=
        ⟨fun _ => rfl, fun _ => rfl, rfl, rfl⟩
      exact herase.trans (calls_queueInLoop _ _ _)
  | sendInLoop conn enables =>
    show Calls s (s.sendInLoop conn enables)
    unfold sendInLoop
    split
    · exact ⟨fun _ => rfl, fun _ => rfl, rfl, rfl⟩
    · exact calls_setLoop s conn.loop_ _ rfl rfl
  | shutdownInLoop conn | user => exact ⟨fun _ => rfl, fun _ => rfl, rfl, rfl⟩

theorem calls_call (s : State n) (thread : LoopId n) (cb : Functor n) :
    Calls s (s.call thread cb) := (calls_emit s (.executed thread cb)).trans (calls_run _ cb)

theorem calls_runInLoop (s : State n) (thread l : LoopId n) (cb : Functor n) :
    Calls s (s.runInLoop thread l cb) := by
  unfold runInLoop
  split
  · exact calls_call s thread cb
  · exact calls_queueInLoop s l cb

theorem calls_removeConnection (s : State n) (thread : LoopId n) (conn : Conn n) :
    Calls s (s.removeConnection thread conn) := by
  refine (calls_emit s (.removeConnection thread conn)).trans ?_
  unfold removeConnection
  dsimp only
  split
  · exact ⟨fun _ => rfl, fun _ => rfl, rfl, rfl⟩
  · exact calls_runInLoop _ _ _ _

end State

/-! ## Connections that the server knows -/

/-- This functor may be queued on this loop: it is about an accepted connection of the loop, or
it removes a connection of a sub-loop on the base loop. -/
def Belongs (t : List (Event n)) (l : LoopId n) : Functor n → Prop
  | .connectEstablished conn | .connectDestroyed conn | .sendInLoop conn _
  | .shutdownInLoop conn => .accepted conn ∈ t ∧ conn.loop_ = l
  | .removeConnectionInLoop conn => .accepted conn ∈ t ∧ l = none ∧ conn.loop_ ≠ none
  | .user => True

theorem Belongs.concat {t : List (Event n)} {l : LoopId n} {cb : Functor n}
    (h : Belongs t l cb) (e : Event n) : Belongs (t ++ [e]) l cb := by
  cases cb with
  | connectEstablished conn | connectDestroyed conn | removeConnectionInLoop conn
  | sendInLoop conn _ | shutdownInLoop conn =>
    obtain ⟨hacc, hloop⟩ := h
    exact ⟨List.mem_append_left _ hacc, hloop⟩
  | user => trivial

/-- The connection of a functor, if it has one, was accepted. -/
def FunctorKnown (t : List (Event n)) : Functor n → Prop
  | .connectEstablished conn | .connectDestroyed conn | .removeConnectionInLoop conn
  | .sendInLoop conn _ | .shutdownInLoop conn => .accepted conn ∈ t
  | .user => True

theorem FunctorKnown.concat {t : List (Event n)} {cb : Functor n} (h : FunctorKnown t cb)
    (e : Event n) : FunctorKnown (t ++ [e]) cb := by
  cases cb with
  | connectEstablished conn | connectDestroyed conn | removeConnectionInLoop conn
  | sendInLoop conn _ | shutdownInLoop conn => exact List.mem_append_left _ h
  | user => trivial

theorem Belongs.known {t : List (Event n)} {l : LoopId n} {cb : Functor n}
    (h : Belongs t l cb) : FunctorKnown t cb := by
  cases cb with
  | connectEstablished conn | connectDestroyed conn | removeConnectionInLoop conn
  | sendInLoop conn _ | shutdownInLoop conn => exact h.1
  | user => trivial

/-- Only accepted connections occur, and on their own loops. -/
structure Known (s : State n) : Prop where
  functor : ∀ l, ∀ cb ∈ (s.loops l).queue, Belongs s.trace l cb
  channel : ∀ l conn, conn ∈ (s.loops l).channels_ ∨ conn ∈ (s.loops l).pc.active →
    .accepted conn ∈ s.trace ∧ conn.loop_ = l
  registry : ∀ name conn, s.connections_.lookup name = some conn → .accepted conn ∈ s.trace
  items : ∀ items, s.life = .destroying items → ∀ conn ∈ items, .accepted conn ∈ s.trace
  connected : ∀ conn, s.state_ conn = .kConnected → .accepted conn ∈ s.trace
  calls : ∀ c ∈ s.calls, .accepted c.conn ∈ s.trace

namespace Known

variable {s : State n}

theorem emit (h : Known s) (e : Event n) : Known (s.emit e) where
  functor l cb hcb := (h.functor l cb hcb).concat e
  channel l conn hmem := by
    obtain ⟨hacc, hloop⟩ := h.channel l conn hmem
    exact ⟨List.mem_append_left _ hacc, hloop⟩
  registry name conn hlook := List.mem_append_left _ (h.registry name conn hlook)
  items items hlife conn hmem := List.mem_append_left _ (h.items items hlife conn hmem)
  connected conn hconn := List.mem_append_left _ (h.connected conn hconn)
  calls c hc := List.mem_append_left _ (h.calls c hc)

theorem setState (h : Known s) {conn : Conn n} {state : StateE}
    (hstate : state = .kConnected → .accepted conn ∈ s.trace) : Known (s.setState conn state) := by
  refine ⟨h.functor, h.channel, h.registry, h.items, fun c hc => ?_, h.calls⟩
  by_cases heq : c = conn
  · subst heq
    exact hstate (by simpa [State.setState] using hc)
  · exact h.connected c (by simpa [State.setState, heq] using hc)

/-- Other threads make their calls through pointers to accepted connections. -/
theorem move (h : Known s) (held : List (Conn n)) {calls : List (Call n)}
    {state_ : Conn n → StateE}
    (hcalls : ∀ c ∈ calls, (∃ c' ∈ s.calls, c'.conn = c.conn) ∨ s.state_ c.conn = .kConnected)
    (hstate : ∀ conn, state_ conn = .kConnected → s.state_ conn = .kConnected) :
    Known { s with held, calls, state_ } := by
  refine ⟨h.functor, h.channel, h.registry, h.items,
    fun conn hconn => h.connected conn (hstate conn hconn), fun c hc => ?_⟩
  obtain ⟨c', hc', hconn⟩ | hconn := hcalls c hc
  · exact hconn ▸ h.calls c' hc'
  · exact h.connected c.conn hconn

/-- A change of one loop. -/
theorem setLoop (h : Known s) (l : LoopId n) (f : Loop n → Loop n)
    (hqueue : ∀ cb ∈ (f (s.loops l)).queue, cb ∈ (s.loops l).queue ∨ Belongs s.trace l cb)
    (hchannel : ∀ conn, conn ∈ (f (s.loops l)).channels_ ∨ conn ∈ (f (s.loops l)).pc.active →
      (conn ∈ (s.loops l).channels_ ∨ conn ∈ (s.loops l).pc.active) ∨
        .accepted conn ∈ s.trace ∧ conn.loop_ = l) : Known (s.setLoop l f) where
  functor l' cb hmem := by
    rw [State.loops_setLoop] at hmem
    split at hmem
    · next heq =>
      subst heq
      exact (hqueue cb hmem).elim (h.functor l' cb) id
    · exact h.functor l' cb hmem
  channel l' conn hmem := by
    rw [State.loops_setLoop] at hmem
    split at hmem
    · next heq =>
      subst heq
      exact (hchannel conn hmem).elim (h.channel l' conn) id
    · exact h.channel l' conn hmem
  registry := h.registry
  items := h.items
  connected := h.connected
  calls := h.calls

/-- A loop moves on without executing anything. -/
theorem setPc (h : Known s) (l : LoopId n) {pc : LoopPc n}
    (hfunctors : ∀ cb ∈ pc.functors, cb ∈ (s.loops l).pc.functors)
    (hactive : ∀ conn ∈ pc.active,
      conn ∈ (s.loops l).channels_ ∨ conn ∈ (s.loops l).pc.active) : Known (s.setPc l pc) := by
  refine h.setLoop l _ (fun cb hmem => Or.inl ?_) (fun conn hmem => Or.inl ?_)
  · obtain hmem | hmem := List.mem_append.mp hmem
    · exact List.mem_append_left _ (hfunctors cb hmem)
    · exact List.mem_append_right _ hmem
  · exact hmem.elim Or.inl (hactive conn)

theorem queueInLoop (h : Known s) {l : LoopId n} (cb : Functor n) (hcb : Belongs s.trace l cb) :
    Known (s.queueInLoop l cb) := by
  refine h.setLoop l _ (fun f hmem => ?_) (fun conn hmem => Or.inl hmem)
  simp only [Loop.queue, List.mem_append, List.mem_singleton] at hmem ⊢
  obtain hmem | hmem | rfl := hmem
  · exact Or.inl (Or.inl hmem)
  · exact Or.inl (Or.inr hmem)
  · exact Or.inr hcb

/-- The poller gets the channel of an accepted connection. -/
theorem addChannel (h : Known s) {conn : Conn n} (hacc : .accepted conn ∈ s.trace) :
    Known (s.setLoop conn.loop_ fun loop => { loop with channels_ := conn :: loop.channels_ }) := by
  apply h.setLoop conn.loop_ (fun loop => { loop with channels_ := conn :: loop.channels_ })
  · intro cb hmem
    exact Or.inl hmem
  · rintro c (hmem | hmem)
    · obtain rfl | hmem := List.mem_cons.mp hmem
      · exact Or.inr ⟨hacc, rfl⟩
      · exact Or.inl (Or.inl hmem)
    · exact Or.inl (Or.inr hmem)

theorem connectDestroyed (h : Known s) (conn : Conn n) : Known (s.connectDestroyed conn) := by
  have hstate : Known (s.setState conn
      (if s.state_ conn = .kConnected then .kDisconnceted else s.state_ conn)) := by
    refine h.setState fun hconn => ?_
    split at hconn
    · cases hconn
    · exact h.connected conn hconn
  apply hstate.setLoop conn.loop_
    (fun loop => { loop with channels_ := loop.channels_.filter (· ≠ conn) })
  · intro cb hmem
    exact Or.inl hmem
  · intro c hmem
    exact Or.inl (hmem.imp_left List.mem_of_mem_filter)

theorem removeConnectionInLoop (h : Known s) {conn : Conn n} (hacc : .accepted conn ∈ s.trace) :
    Known (s.removeConnectionInLoop conn) := by
  unfold State.removeConnectionInLoop
  split
  · exact h
  · have herase : Known { s with connections_ := s.connections_.erase conn.name_ } := by
      refine ⟨h.functor, h.channel, fun name c hlook => ?_, h.items, h.connected, h.calls⟩
      by_cases hname : name = conn.name_
      · subst hname
        simp at hlook
      · rw [AList.lookup_erase_ne hname] at hlook
        exact h.registry name c hlook
    exact herase.queueInLoop (.connectDestroyed conn) ⟨hacc, rfl⟩

theorem run (h : Known s) {cb : Functor n} (hcb : FunctorKnown s.trace cb) :
    Known (s.run cb) := by
  cases cb with
  | connectEstablished conn => exact (h.setState fun _ => hcb).addChannel hcb
  | connectDestroyed conn => exact h.connectDestroyed conn
  | removeConnectionInLoop conn => exact h.removeConnectionInLoop hcb
  | sendInLoop conn enables =>
    show Known (s.sendInLoop conn enables)
    unfold State.sendInLoop
    split
    · exact h
    · exact h.addChannel hcb
  | shutdownInLoop conn | user => exact h

theorem call (h : Known s) (thread : LoopId n) {cb : Functor n} (hcb : FunctorKnown s.trace cb) :
    Known (s.call thread cb) := (h.emit _).run (hcb.concat _)

theorem runInLoop (h : Known s) {thread l : LoopId n} (cb : Functor n)
    (hcb : FunctorKnown s.trace cb) (hqueue : thread ≠ l → Belongs s.trace l cb) :
    Known (s.runInLoop thread l cb) := by
  unfold State.runInLoop
  split
  · exact h.call thread hcb
  · next hne => exact h.queueInLoop cb (hqueue hne)

theorem removeConnection (h : Known s) {l : LoopId n} {conn : Conn n}
    (hacc : .accepted conn ∈ s.trace) (hloop : conn.loop_ = l) :
    Known (s.removeConnection l conn) := by
  have hemit := h.emit (.removeConnection l conn)
  have hacc' := List.mem_append_left [Event.removeConnection l conn] hacc
  unfold State.removeConnection
  dsimp only
  split
  · exact hemit
  · refine hemit.runInLoop (.removeConnectionInLoop conn) hacc' fun hne => ?_
    exact ⟨hacc', rfl, fun hnone => hne (hloop.symm.trans hnone)⟩

/-! ### Steps -/

theorem loopStep (h : Known s) {l : LoopId n} {s' : State n} (hs : LoopStep s l s') :
    Known s' := by
  cases hs with
  | stop hpc hquit => exact (h.setPc l (by simp [LoopPc.functors]) (by simp [LoopPc.active])).emit _
  | poll hpc => exact h.setPc l (by simp [LoopPc.functors]) (by simp [LoopPc.active])
  | pollReturn active hpc hactive =>
    exact h.setPc l (by simp [LoopPc.functors]) (fun conn hmem => Or.inl (hactive conn hmem))
  | handleEvent conn rest hpc =>
    refine h.setPc l (by simp [LoopPc.functors]) fun c hmem => Or.inr ?_
    rw [hpc]
    exact List.mem_cons_of_mem conn hmem
  | beginClose conn rest hpc =>
    refine (h.setState (by simp)).setPc l (by simp [LoopPc.functors]) fun c hmem => Or.inr ?_
    show c ∈ (s.loops l).pc.active
    rw [hpc]
    exact hmem
  | close conn rest pc state_ hpc hnext hstate =>
    obtain ⟨hacc, hloop⟩ := h.channel l conn (Or.inr (by rw [hpc]; exact List.mem_cons_self))
    have hactive : ∀ c ∈ conn :: rest, c ∈ ((s.removeConnection l conn).loops l).channels_ ∨
        c ∈ ((s.removeConnection l conn).loops l).pc.active := by
      intro c hmem
      rw [(s.calls_removeConnection l conn).pc, hpc]
      exact Or.inr hmem
    have hclosed : Known { s.removeConnection l conn with state_ } :=
      (h.removeConnection hacc hloop).move _ (fun c hc => Or.inl ⟨c, hc, rfl⟩) hstate
    obtain rfl | rfl := hnext
    · exact hclosed.setPc l (by simp [LoopPc.functors]) hactive
    · exact hclosed.setPc l (by simp [LoopPc.functors])
        fun c hmem => hactive c (List.mem_cons_of_mem conn hmem)
  | swap hpc =>
    apply h.setLoop
    · intro cb hmem
      simp only [Loop.queue, LoopPc.functors, List.append_nil] at hmem
      exact Or.inl (List.mem_append_right _ hmem)
    · rintro conn (hmem | hmem)
      · exact Or.inl (Or.inl hmem)
      · cases hmem
  | runFunctor functor rest hpc =>
    have hbelongs : Belongs s.trace l functor :=
      h.functor l functor (by simp [Loop.queue, LoopPc.functors, hpc])
    refine Known.call (h.setPc l ?_ (by simp [LoopPc.active])) l hbelongs.known
    intro cb hmem
    rw [hpc]
    exact List.mem_cons_of_mem functor hmem
  | endBatch hpc => exact h.setPc l (by simp [LoopPc.functors]) (by simp [LoopPc.active])

theorem userStep (h : Known s) {s' : State n} (hs : UserStep s s') : Known s' := by
  cases hs with
  | move held calls state_ hcalls hstate => exact h.move held hcalls hstate
  | queue c cb hmem hcb =>
    have hacc := h.calls c hmem
    have herase : Known { s with calls := s.calls.erase c } :=
      h.move s.held (fun c' hc' => Or.inl ⟨c', List.mem_of_mem_erase hc', rfl⟩) fun _ => id
    obtain ⟨enables, rfl⟩ | rfl := hcb
    · exact herase.queueInLoop _ ⟨hacc, rfl⟩
    · exact herase.queueInLoop _ ⟨hacc, rfl⟩

theorem register (h : Known s) : Known (s.register s.newConn) := by
  have hemit := h.emit (.accepted s.newConn)
  refine ⟨hemit.functor, hemit.channel, fun name conn hlook => ?_, hemit.items, hemit.connected,
    hemit.calls⟩
  by_cases hname : name = s.newConn.name_
  · subst hname
    obtain rfl : s.newConn = conn := by simpa [State.register] using hlook
    exact List.mem_append_right _ List.mem_cons_self
  · have hold : s.connections_.lookup name = some conn := by
      simpa [State.register, AList.lookup_insert_ne hname] using hlook
    exact List.mem_append_left _ (h.registry name conn hold)

theorem newConnection (h : Known s) : Known s.newConnection := by
  have hacc : .accepted s.newConn ∈ (s.register s.newConn).trace :=
    List.mem_append_right _ List.mem_cons_self
  exact h.register.runInLoop _ hacc fun _ => ⟨hacc, rfl⟩

/-- Only the body of the destructor looks at `life`. -/
theorem setLife (h : Known s) {life : Life n}
    (hitems : ∀ items, life = .destroying items → ∀ conn ∈ items, .accepted conn ∈ s.trace) :
    Known { s with life } :=
  ⟨h.functor, h.channel, h.registry, hitems, h.connected, h.calls⟩

theorem values (h : Known s) :
    ∀ conn ∈ s.connections_.entries.map Sigma.snd, .accepted conn ∈ s.trace := by
  intro conn hconn
  obtain ⟨⟨name, _⟩, hentry, rfl⟩ := List.mem_map.mp hconn
  exact h.registry name _ (AList.mem_lookup_iff.mpr hentry)

theorem step (s : State n) (a : Action n) (s' : State n) (h : Known s)
    (hs : step s a = some s') : Known s' := by
  cases Step.of_step hs with
  | loop l a _ hfree hs => exact h.loopStep hs
  | accept active hpc hlife => exact h.newConnection
  | queueUser l => exact h.queueInLoop .user trivial
  | user a _ hs => exact h.userStep hs
  | destructor hlife =>
    refine (h.setLife ?_).emit _
    rintro _ ⟨⟩
    exact h.values
  | destroyItem conn items hlife hmem =>
    have hacc := h.items items hlife conn hmem
    refine Known.runInLoop (h.setLife ?_) _ (by exact hacc) (fun _ => ⟨hacc, rfl⟩)
    rintro _ ⟨⟩ c hc
    exact h.items items hlife c (List.mem_of_mem_erase hc)
  | endBody hlife => exact h.setLife (by simp)
  | quitLoop i hlife =>
    exact (h.setLife (by simp)).setLoop _ _ (fun cb hmem => Or.inl hmem)
      (fun conn hmem => Or.inl hmem)
  | joinLoop i hlife hpc => exact h.setLife (by simp)
  | finish hlife => exact (h.setLife (by simp)).emit _

theorem start (n : Nat) (nameArg : List UInt8) (listenAddr : InetAddress) :
    Known (start n nameArg listenAddr) := by
  refine ⟨?_, ?_, ?_, ?_, ?_, ?_⟩ <;>
    simp [TcpServer.start, Loop.queue, LoopPc.functors, LoopPc.active]

end Known

end TcpServer

end CppInOne.Mymuduo
