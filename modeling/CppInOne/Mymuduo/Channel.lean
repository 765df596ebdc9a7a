import CppInOne.Mymuduo.Buffer

/-!
# Channels and the trace of a loop thread

A `Channel` is a file descriptor with the events its owner is interested in, the events
`epoll_wait` reported last, its state in the poller and the callbacks that are set.
`Event` records what happens on a loop thread, in order; the models of the poller and of
`TcpConnection` append to one such trace.
-/

namespace CppInOne.Mymuduo

/-! ## Event masks, as in `sys/epoll.h` -/

abbrev Mask := BitVec 32

def EPOLLIN : Mask := 0x001
def EPOLLPRI : Mask := 0x002
def EPOLLOUT : Mask := 0x004
def EPOLLERR : Mask := 0x008
def EPOLLHUP : Mask := 0x010

def kNoneEvent : Mask := 0
def kReadEvent : Mask := EPOLLIN ||| EPOLLPRI
def kWriteEvent : Mask := EPOLLOUT

/-- The address of a channel. -/
abbrev Ptr := Nat

/-- State of a channel in the poller. -/
inductive Index where
  | kNew
  | kAdded
  | kDeleted
  deriving DecidableEq, Repr

structure Channel where
  fd_ : Int
  events_ : Mask := 0
  revents_ : Mask := 0
  index_ : Index := .kNew
  tied_ : Bool := false
  readCallback_ : Bool := false
  writeCallback_ : Bool := false
  closeCallback_ : Bool := false
  errorCallback_ : Bool := false
  deriving DecidableEq, Repr

/-- Which callback `handleEvent` invokes. -/
inductive Callback where
  | close
  | error
  | read
  | write
  deriving DecidableEq, Repr

namespace Channel

def isNoneEvent (c : Channel) : Bool := c.events_ == kNoneEvent
def isReading (c : Channel) : Bool := c.events_ &&& kReadEvent != 0
def isWriting (c : Channel) : Bool := c.events_ &&& kWriteEvent != 0

/-- The callbacks invoked for `revents_`, in order. The last two tests read
`revents_ && !(EPOLLPRI & EPOLLIN)` and `revents_ && EPOLLOUT`: they are logical, not
bitwise, and hold for every nonzero `revents_`. -/
def handleEventWithGuard (c : Channel) : List Callback :=
  (if c.revents_ &&& EPOLLHUP ≠ 0 ∧ ¬ c.revents_ &&& EPOLLIN ≠ 0 ∧ c.closeCallback_ then
    [.close] else []) ++
  (if c.revents_ &&& EPOLLERR ≠ 0 ∧ c.errorCallback_ then [.error] else []) ++
  (if c.revents_ ≠ 0 ∧ ¬ EPOLLPRI &&& EPOLLIN ≠ 0 ∧ c.readCallback_ then [.read] else []) ++
  (if c.revents_ ≠ 0 ∧ EPOLLOUT ≠ 0 ∧ c.writeCallback_ then [.write] else [])

/-- `alive` tells whether `tie_.lock()` still finds the tied object. -/
def handleEvent (c : Channel) (alive : Bool) : List Callback :=
  if c.tied_ then
    if alive then c.handleEventWithGuard else []
  else c.handleEventWithGuard

end Channel

/-! ## Mask arithmetic -/

theorem enableWriting_bit (e : Mask) : (e ||| kWriteEvent) &&& kWriteEvent = kWriteEvent := by
  ext i
  simp only [BitVec.getElem_and, BitVec.getElem_or]
  cases e[i] <;> simp

theorem disableWriting_bit (e : Mask) : e &&& ~~~kWriteEvent &&& kWriteEvent = 0 := by
  have hcancel : ~~~kWriteEvent &&& kWriteEvent = 0#32 := by decide
  rw [BitVec.and_assoc, hcancel]
  exact BitVec.and_zero

/-! ## The trace -/

/-- Operations of `epoll_ctl`. -/
inductive EpollOp where
  | ADD
  | MOD
  | DEL
  deriving DecidableEq, Repr

/-- Work that is handed to a loop with `queueInLoop`. -/
inductive Functor where
  | writeCompleteCallback
  | highWaterMarkCallback (len : Nat)
  deriving DecidableEq, Repr

/-- What happens on a loop thread, as far as it can be observed from outside, and the calls
of `send` and `shutdown` on a connection. -/
inductive Event where
  | epollCtl (op : EpollOp) (fd : Int) (ok : Bool)
  /-- `send` has passed its test of `state_` on the loop thread. -/
  | send (data : Bytes)
  | write (offered : Bytes) (result : WriteResult)
  /-- `shutdownWrite` while `unsent` bytes are in `outputBuffer_`. -/
  | shutdownWrite (unsent : Nat)
  /-- `handleClose` is entered with `unsent` bytes in `outputBuffer_`. -/
  | handleClose (unsent : Nat)
  | handleError
  | messageCallback
  | connectionCallback (connected : Bool)
  | closeCallback
  | queueInLoop (functor : Functor)
  /-- The call `id` of `send`, which had observed `kConnected`, returns. -/
  | sendReturned (id : Nat)
  /-- `sendInLoop` runs for the call `id`. -/
  | sendHandled (id : Nat)
  /-- `sendInLoop` gives up the bytes of the call `id`. -/
  | sendGivenUp (id : Nat)
  | shutdownCalled
  deriving DecidableEq, Repr

/-- Events between the loop, the poller and the kernel only. -/
def Event.quiet : Event → Bool
  | .epollCtl .. => true
  | .queueInLoop _ => true
  | _ => false

end CppInOne.Mymuduo
