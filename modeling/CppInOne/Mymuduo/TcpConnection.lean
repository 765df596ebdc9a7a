import CppInOne.Mymuduo.EPollPoller

/-!
# TCP connections

The functions of `TcpConnection` that run on the connection's loop thread. The results of
the system calls and what the user's callbacks do are arguments of the functions that meet
them. A connection carries the poller of its loop, so that its effects are the poller's
records and the trace.

## Main results

- `sendInLoop_direct`, `sendInLoop_queued`, `handleWriteDrain_spec` — the output side
- `Sound` and its lemmas — the channel stays known to the poller and the kernel
-/

namespace CppInOne.Mymuduo

inductive StateE where
  | kDisconnceted
  | kConnecting
  | kConnected
  | kDisconnecting
  deriving DecidableEq, Repr

/-- `EPIPE` or `ECONNRESET`. -/
def WriteResult.fault : WriteResult → Bool
  | .failed .EPIPE => true
  | .failed .ECONNRESET => true
  | _ => false

/-- `this` is the address of `channel_`; `poller` belongs to `loop_`. -/
structure TcpConnection where
  poller : EPollPoller := {}
  this : Ptr
  state_ : StateE := .kConnecting
  channel_ : Channel
  inputBuffer_ : ValidBuffer := .create kInitialSize
  outputBuffer_ : ValidBuffer := .create kInitialSize
  highWaterMark_ : Nat := 64 * 1024 * 1024
  writeCompleteCallback_ : Bool
  highWaterMarkCallback_ : Bool

namespace TcpConnection

/-- The constructor, after which the owner sets the two optional callbacks. -/
def create (this : Ptr) (sockfd : Int) (writeComplete highWater : Bool) : TcpConnection where
  this := this
  channel_ :=
    { fd_ := sockfd
      readCallback_ := true
      writeCallback_ := true
      closeCallback_ := true
      errorCallback_ := true }
  writeCompleteCallback_ := writeComplete
  highWaterMarkCallback_ := highWater

def trace (c : TcpConnection) : List Event := c.poller.trace

def emit (c : TcpConnection) (e : Event) : TcpConnection := { c with poller := c.poller.emit e }

def queueInLoop (c : TcpConnection) (functor : Functor) : TcpConnection :=
  c.emit (.queueInLoop functor)

def setState (c : TcpConnection) (state : StateE) : TcpConnection := { c with state_ := state }

def connected (c : TcpConnection) : Bool := c.state_ = .kConnected

/-- Call a function of `channel_`. -/
def onChannel (c : TcpConnection) (op : EPollPoller → Ptr → Channel → EPollPoller × Channel) :
    TcpConnection :=
  let r := op c.poller c.this c.channel_
  { c with poller := r.1, channel_ := r.2 }

/-- The high-water notification for `remaining` more bytes. -/
def notifyHighWaterMark (c : TcpConnection) (remaining : Nat) : TcpConnection :=
  let oldlen := c.outputBuffer_.readableBytes
  if c.highWaterMark_ ≤ oldlen + remaining ∧ oldlen < c.highWaterMark_ ∧
      c.highWaterMarkCallback_ then
    c.queueInLoop (.highWaterMarkCallback (oldlen + remaining))
  else c

/-- The second half of `sendInLoop`: keep the bytes that were not written. -/
def bufferRemaining (c : TcpConnection) (rest : Bytes) : TcpConnection :=
  if 0 < rest.length then
    let c := c.notifyHighWaterMark rest.length
    let c := { c with outputBuffer_ := c.outputBuffer_.append rest }
    if c.channel_.isWriting then c else c.onChannel Channel.enableWriting
  else c

/-- `sendInLoop`; `result` is what `::write` returns if it is called. -/
def sendInLoop (c : TcpConnection) (data : Bytes) (result : WriteResult) : TcpConnection :=
  if c.state_ = .kDisconnceted then c
  else if ¬ c.channel_.isWriting ∧ c.outputBuffer_.readableBytes = 0 then
    let c := c.emit (.write data result)
    match result with
    | .wrote nwrote =>
      let remaining := data.length - nwrote
      let c := if remaining = 0 ∧ c.writeCompleteCallback_ then
          c.queueInLoop .writeCompleteCallback else c
      c.bufferRemaining (data.drop nwrote)
    | .failed errno =>
      -- `faultError`: the bytes are dropped
      if errno = .EPIPE ∨ errno = .ECONNRESET then c else c.bufferRemaining data
  else c.bufferRemaining data

/-- `send` on the loop thread. -/
def send (c : TcpConnection) (buf : Bytes) (result : WriteResult) : TcpConnection :=
  if c.state_ = .kConnected then (c.emit (.send buf)).sendInLoop buf result else c

def shutdownInLoop (c : TcpConnection) : TcpConnection :=
  if ¬ c.channel_.isWriting then c.emit (.shutdownWrite c.outputBuffer_.readableBytes) else c

/-- `shutdown` on the loop thread. -/
def shutdown (c : TcpConnection) : TcpConnection :=
  if c.state_ = .kConnected then (c.setState .kDisconnecting).shutdownInLoop else c

/-- `handleWrite` up to its test of `state_`; the flag tells whether it gets there. -/
def handleWriteDrain (c : TcpConnection) (result : WriteResult) : TcpConnection × Bool :=
  if c.channel_.isWriting then
    let (offered, result) := c.outputBuffer_.writeFd result
    let c := c.emit (.write offered result)
    match result with
    | .wrote n =>
      if 0 < n then
        let c := { c with outputBuffer_ := c.outputBuffer_.retrieve n }
        if c.outputBuffer_.readableBytes = 0 then
          let c := c.onChannel Channel.disableWriting
          let c := if c.writeCompleteCallback_ then
              c.queueInLoop .writeCompleteCallback else c
          (c, true)
        else (c, false)
      else (c, false)
    | .failed _ => (c, false)
  else (c, false)

def handleWrite (c : TcpConnection) (result : WriteResult) : TcpConnection :=
  let (c, drained) := c.handleWriteDrain result
  if drained ∧ c.state_ = .kDisconnecting then c.shutdownInLoop else c

def handleError (c : TcpConnection) : TcpConnection := c.emit .handleError

/-- What user code does to its connection from a callback on the loop thread. -/
inductive UserAct where
  | send (buf : Bytes) (result : WriteResult)
  | shutdown
  | retrieve (len : Nat)
  deriving DecidableEq, Repr

def user (c : TcpConnection) : UserAct → TcpConnection
  | .send buf result => c.send buf result
  | .shutdown => c.shutdown
  | .retrieve len => { c with inputBuffer_ := c.inputBuffer_.retrieve len }

/-- `handleClose`; `acts` is what the user's `connectionCallback_` does. -/
def handleClose (c : TcpConnection) (acts : List UserAct) : TcpConnection :=
  let c := c.emit (.handleClose c.outputBuffer_.readableBytes)
  let c := c.setState .kDisconnceted
  let c := c.onChannel Channel.disableAll
  let c := acts.foldl user (c.emit (.connectionCallback c.connected))
  c.emit .closeCallback

/-- `handleRead`; `acts` is what the user's callback does. -/
def handleRead (c : TcpConnection) (readv : Readv) (acts : List UserAct) : TcpConnection :=
  let (inputBuffer, n, _) := c.inputBuffer_.readFd readv
  let c := { c with inputBuffer_ := inputBuffer }
  if 0 < n then acts.foldl user (c.emit .messageCallback)
  else if n = 0 then c.handleClose acts
  else c.handleError

/-- `connectEstablished`, without what the user's `connectionCallback_` does. -/
def connectEstablished (c : TcpConnection) : TcpConnection :=
  let c := c.setState .kConnected
  let c := { c with channel_ := { c.channel_ with tied_ := true } }
  let c := c.onChannel Channel.enableReading
  c.emit (.connectionCallback c.connected)

/-- A connection after `connectEstablished`. -/
def established (this : Ptr) (sockfd : Int) (writeComplete highWater : Bool) : TcpConnection :=
  (create this sockfd writeComplete highWater).connectEstablished

def connectDestroyed (c : TcpConnection) : TcpConnection :=
  let c := if c.state_ = .kConnected then
      let c := c.setState .kDisconnceted
      let c := c.onChannel Channel.disableAll
      c.emit (.connectionCallback c.connected)
    else c
  c.onChannel Channel.remove

/-- What the outside world answers while one event is handled. -/
structure Outcomes where
  readv : Readv
  write : WriteResult
  /-- What user code does in the callback of the close branch and of the read branch. -/
  atClose : List UserAct
  atRead : List UserAct
  deriving DecidableEq, Repr

def invoke (o : Outcomes) (c : TcpConnection) : Callback → TcpConnection
  | .close => c.handleClose o.atClose
  | .error => c.handleError
  | .read => c.handleRead o.readv o.atRead
  | .write => c.handleWrite o.write

/-- The loop handles an event of the channel, with `set_revents` just before. -/
def handleEvent (c : TcpConnection) (revents : Mask) (alive : Bool) (o : Outcomes) :
    TcpConnection :=
  let c := { c with channel_ := { c.channel_ with revents_ := revents } }
  (c.channel_.handleEvent alive).foldl (invoke o) c

/-! ## Frame lemmas -/

@[simp] theorem trace_emit (c : TcpConnection) (e : Event) :
    (c.emit e).trace = c.trace ++ [e] := rfl

@[simp] theorem state_emit (c : TcpConnection) (e : Event) : (c.emit e).state_ = c.state_ := rfl

@[simp] theorem channel_emit (c : TcpConnection) (e : Event) :
    (c.emit e).channel_ = c.channel_ := rfl

@[simp] theorem outputBuffer_emit (c : TcpConnection) (e : Event) :
    (c.emit e).outputBuffer_ = c.outputBuffer_ := rfl

@[simp] theorem state_queueInLoop (c : TcpConnection) (functor : Functor) :
    (c.queueInLoop functor).state_ = c.state_ := rfl

@[simp] theorem channel_queueInLoop (c : TcpConnection) (functor : Functor) :
    (c.queueInLoop functor).channel_ = c.channel_ := rfl

@[simp] theorem outputBuffer_queueInLoop (c : TcpConnection) (functor : Functor) :
    (c.queueInLoop functor).outputBuffer_ = c.outputBuffer_ := rfl

@[simp] theorem trace_setState (c : TcpConnection) (state : StateE) :
    (c.setState state).trace = c.trace := rfl

@[simp] theorem state_setState (c : TcpConnection) (state : StateE) :
    (c.setState state).state_ = state := rfl

@[simp] theorem channel_setState (c : TcpConnection) (state : StateE) :
    (c.setState state).channel_ = c.channel_ := rfl

@[simp] theorem outputBuffer_setState (c : TcpConnection) (state : StateE) :
    (c.setState state).outputBuffer_ = c.outputBuffer_ := rfl

@[simp] theorem state_onChannel (c : TcpConnection)
    (op : EPollPoller → Ptr → Channel → EPollPoller × Channel) :
    (c.onChannel op).state_ = c.state_ := rfl

@[simp] theorem outputBuffer_onChannel (c : TcpConnection)
    (op : EPollPoller → Ptr → Channel → EPollPoller × Channel) :
    (c.onChannel op).outputBuffer_ = c.outputBuffer_ := rfl

@[simp] theorem isWriting_enableWriting (c : TcpConnection) :
    (c.onChannel Channel.enableWriting).channel_.isWriting = true :=
  c.channel_.isWriting_enableWriting c.poller c.this

@[simp] theorem isWriting_disableWriting (c : TcpConnection) :
    (c.onChannel Channel.disableWriting).channel_.isWriting = false :=
  c.channel_.isWriting_disableWriting c.poller c.this

@[simp] theorem isWriting_disableAll (c : TcpConnection) :
    (c.onChannel Channel.disableAll).channel_.isWriting = false :=
  c.channel_.isWriting_disableAll c.poller c.this

/-- From `c` to `c'` the events `io` happened, and after them only quiet ones. -/
def Went (c : TcpConnection) (io : List Event) (c' : TcpConnection) : Prop :=
  ∃ quiet, (∀ e ∈ quiet, Event.quiet e = true) ∧ c'.trace = c.trace ++ io ++ quiet

theorem Went.refl (c : TcpConnection) : Went c [] c :=
  ⟨[], fun _ he => absurd he List.not_mem_nil, by simp⟩

theorem went_emit (c : TcpConnection) (e : Event) : Went c [e] (c.emit e) :=
  ⟨[], fun _ he => absurd he List.not_mem_nil, by simp⟩

theorem Went.silent {c₁ c₂ c₃ : TcpConnection} {io : List Event} (h : Went c₁ io c₂)
    (h' : Went c₂ [] c₃) : Went c₁ io c₃ := by
  obtain ⟨q, hq, ht⟩ := h
  obtain ⟨q', hq', ht'⟩ := h'
  refine ⟨q ++ q', ?_, by rw [ht', ht]; simp⟩
  intro e he
  obtain he | he := List.mem_append.mp he
  · exact hq e he
  · exact hq' e he

theorem Went.of_emit {c c' : TcpConnection} {e : Event} {io : List Event}
    (h : Went (c.emit e) io c') : Went c (e :: io) c' := by
  obtain ⟨quiet, hquiet, htrace⟩ := h
  exact ⟨quiet, hquiet, by rw [htrace]; simp⟩

theorem Went.mem {c c' : TcpConnection} {io : List Event} (h : Went c io c') {e : Event}
    (he : e ∈ c'.trace) : e ∈ c.trace ∨ e ∈ io ∨ e.quiet = true := by
  obtain ⟨quiet, hquiet, htrace⟩ := h
  rw [htrace, List.mem_append, List.mem_append] at he
  rcases he with (he | he) | he
  · exact Or.inl he
  · exact Or.inr (Or.inl he)
  · exact Or.inr (Or.inr (hquiet e he))

theorem Went.mem_old {c c' : TcpConnection} {io : List Event} (h : Went c io c') {e : Event}
    (he : e ∈ c.trace) : e ∈ c'.trace := by
  obtain ⟨quiet, _, htrace⟩ := h
  rw [htrace]
  exact List.mem_append_left _ (List.mem_append_left _ he)

theorem Went.mem_new {c c' : TcpConnection} {io : List Event} (h : Went c io c') {e : Event}
    (he : e ∈ io) : e ∈ c'.trace := by
  obtain ⟨quiet, _, htrace⟩ := h
  rw [htrace]
  exact List.mem_append_left _ (List.mem_append_right _ he)

theorem went_queueInLoop (c : TcpConnection) (functor : Functor) :
    Went c [] (c.queueInLoop functor) :=
  ⟨[.queueInLoop functor], fun _ he => List.mem_singleton.mp he ▸ rfl, by simp [queueInLoop]⟩

theorem trace_setEvents (c : TcpConnection) (events : Channel → Mask) :
    ∃ op ok, (c.onChannel fun p this ch => ch.setEvents p this (events ch)).trace =
      c.trace ++ [.epollCtl op c.channel_.fd_ ok] := by
  obtain ⟨_, op, ok, _, htrace⟩ := c.channel_.setEvents_spec c.poller c.this (events c.channel_)
  exact ⟨op, ok, htrace⟩

/-- `update()` on the channel is quiet. -/
theorem went_setEvents (c : TcpConnection) (events : Channel → Mask) :
    Went c [] (c.onChannel fun p this ch => ch.setEvents p this (events ch)) := by
  obtain ⟨op, ok, htrace⟩ := c.trace_setEvents events
  refine ⟨[.epollCtl op c.channel_.fd_ ok], ?_, by rw [htrace, List.append_nil]⟩
  intro e he
  rw [List.mem_singleton.mp he]
  rfl

/-! ## The output side -/

/-- What a function on the output side leaves behind: the events `io` happened, the bytes
`out` wait in `outputBuffer_`, and `writing` tells whether the channel waits for the
socket. -/
structure Output (c : TcpConnection) (io : List Event) (out : Bytes) (writing : Prop)
    (c' : TcpConnection) : Prop where
  state_eq : c'.state_ = c.state_
  out_eq : c'.outputBuffer_.readable = out
  writing_iff : c'.channel_.isWriting = true ↔ writing
  went : Went c io c'

theorem Output.after {c c₁ c' : TcpConnection} {io : List Event} {out : Bytes} {writing : Prop}
    (h : Output c₁ [] out writing c') (hstate : c₁.state_ = c.state_) (hwent : Went c io c₁) :
    Output c io out writing c' :=
  ⟨h.state_eq.trans hstate, h.out_eq, h.writing_iff, hwent.silent h.went⟩

theorem notifyHighWaterMark_spec (c : TcpConnection) (remaining : Nat) :
    ∃ p, c.notifyHighWaterMark remaining = { c with poller := p } ∧
      Went c [] (c.notifyHighWaterMark remaining) := by
  rw [notifyHighWaterMark]
  split
  · exact ⟨_, rfl, went_queueInLoop c _⟩
  · exact ⟨_, rfl, Went.refl c⟩

/-- Keeping `rest` appends it and makes sure that the channel waits for the socket. -/
theorem bufferRemaining_spec (c : TcpConnection) (rest : Bytes) :
    Output c [] (c.outputBuffer_.readable ++ rest) (c.channel_.isWriting = true ∨ rest ≠ [])
      (c.bufferRemaining rest) := by
  by_cases hrest : 0 < rest.length
  · have hne : rest ≠ [] := List.ne_nil_of_length_pos hrest
    obtain ⟨p, hp, hwent⟩ := c.notifyHighWaterMark_spec rest.length
    rw [bufferRemaining, if_pos hrest, hp]
    rw [hp] at hwent
    by_cases hwriting : c.channel_.isWriting = true
    · simp only [hwriting, if_true]
      exact ⟨rfl, ValidBuffer.readable_append _ _, by simp [hwriting], hwent⟩
    · simp only [hwriting]
      exact ⟨rfl, ValidBuffer.readable_append _ _, by simp [hne],
        hwent.silent (went_setEvents _ fun ch => ch.events_ ||| kWriteEvent)⟩
  · have hnil : rest = [] := List.eq_nil_of_length_eq_zero (by omega)
    subst hnil
    rw [bufferRemaining, if_neg hrest]
    exact ⟨rfl, by simp, by simp, Went.refl c⟩

/-- The test of `sendInLoop` for writing at once. -/
def writesDirectly (c : TcpConnection) : Prop :=
  c.channel_.isWriting = false ∧ c.outputBuffer_.readable = []

/-- With nothing waiting, the channel comes to wait exactly for what is kept. -/
theorem bufferRemaining_empty {c : TcpConnection} (h : c.writesDirectly) (rest : Bytes) :
    Output c [] rest (rest ≠ []) (c.bufferRemaining rest) := by
  obtain ⟨hw, hout⟩ := h
  have hspec := c.bufferRemaining_spec rest
  rw [hout, hw, List.nil_append] at hspec
  exact ⟨hspec.state_eq, hspec.out_eq, by simpa using hspec.writing_iff, hspec.went⟩

/-- The part of `data` that `sendInLoop` keeps after `::write` has returned `result`. -/
def unwritten (data : Bytes) (result : WriteResult) : Bytes :=
  if result.fault then [] else data.drop result.accepted

theorem sendInLoop_direct {c : TcpConnection} (hstate : c.state_ ≠ .kDisconnceted)
    (hdirect : c.writesDirectly) (data : Bytes) (result : WriteResult) :
    Output c [.write data result] (unwritten data result) (unwritten data result ≠ [])
      (c.sendInLoop data result) := by
  have hzero : c.outputBuffer_.readableBytes = 0 :=
    ValidBuffer.readableBytes_eq_zero.mpr hdirect.2
  have hwrite := went_emit c (.write data result)
  rw [sendInLoop, if_neg hstate, if_pos ⟨by simp [hdirect.1], hzero⟩]
  cases result with
  | wrote nwrote =>
    have hkept : unwritten data (.wrote nwrote) = data.drop nwrote := rfl
    rw [hkept]
    dsimp only
    -- whether or not the completion callback is queued, the rest goes to `bufferRemaining`
    split
    · exact (bufferRemaining_empty (by exact hdirect) _).after rfl
        (hwrite.silent (went_queueInLoop _ _))
    · exact (bufferRemaining_empty (by exact hdirect) _).after rfl hwrite
  | failed errno =>
    by_cases hfault : errno = .EPIPE ∨ errno = .ECONNRESET
    · have hkept : unwritten data (.failed errno) = [] := by
        obtain rfl | rfl := hfault <;> rfl
      simp only [hkept, if_pos hfault]
      exact ⟨rfl, hdirect.2, by simp [hdirect.1], hwrite⟩
    · have hkept : unwritten data (.failed errno) = data := by
        cases errno <;> simp_all [unwritten, WriteResult.fault]
      simp only [hkept, if_neg hfault]
      exact (bufferRemaining_empty (by exact hdirect) _).after rfl hwrite

/-- Otherwise the bytes queue up behind those that wait. -/
theorem sendInLoop_queued {c : TcpConnection} (hstate : c.state_ ≠ .kDisconnceted)
    (hdirect : ¬ c.writesDirectly) (data : Bytes) (result : WriteResult) :
    Output c [] (c.outputBuffer_.readable ++ data) (c.channel_.isWriting = true ∨ data ≠ [])
      (c.sendInLoop data result) := by
  have htest : ¬ (¬ c.channel_.isWriting = true ∧ c.outputBuffer_.readableBytes = 0) := by
    rintro ⟨hw, hzero⟩
    exact hdirect ⟨by simpa using hw, ValidBuffer.readableBytes_eq_zero.mp hzero⟩
  rw [sendInLoop, if_neg hstate, if_neg htest]
  exact c.bufferRemaining_spec data

theorem sendInLoop_giveUp {c : TcpConnection} (hstate : c.state_ = .kDisconnceted)
    (data : Bytes) (result : WriteResult) : c.sendInLoop data result = c :=
  if_pos hstate

theorem retrieve_empty_iff (b : ValidBuffer) (n : Nat) :
    (b.retrieve n).readableBytes = 0 ↔ b.readable.drop n = [] := by
  rw [ValidBuffer.readableBytes_eq_zero, ValidBuffer.readable_retrieve]

/-- Draining offers everything that waits and drops what was accepted; the channel stops
waiting when nothing is left. -/
theorem handleWriteDrain_spec {c : TcpConnection} (hw : c.channel_.isWriting = true)
    (result : WriteResult) :
    Output c [.write c.outputBuffer_.readable result]
      (c.outputBuffer_.readable.drop result.accepted)
      (result.accepted = 0 ∨ c.outputBuffer_.readable.drop result.accepted ≠ [])
      (c.handleWriteDrain result).1 := by
  have hwrite := went_emit c (.write c.outputBuffer_.readable result)
  rw [handleWriteDrain, if_pos hw, ValidBuffer.writeFd_eq]
  cases result with
  | failed errno => exact ⟨rfl, rfl, by simp [hw], hwrite⟩
  | wrote n =>
    have hout := ValidBuffer.readable_retrieve c.outputBuffer_ n
    dsimp only [WriteResult.accepted_wrote]
    split
    · rename_i hpos
      split
      · rename_i hempty
        -- the last byte is out, and the channel stops waiting for the socket
        have hleft := (retrieve_empty_iff _ _).mp hempty
        have hdisable := hwrite.silent (went_setEvents
          { c.emit (.write c.outputBuffer_.readable (.wrote n)) with
            outputBuffer_ := c.outputBuffer_.retrieve n }
          fun ch => ch.events_ &&& ~~~kWriteEvent)
        simp only [outputBuffer_emit] at hleft
        split
        · exact ⟨rfl, hout, by simp [hleft, Nat.ne_of_gt hpos],
            hdisable.silent (went_queueInLoop _ _)⟩
        · exact ⟨rfl, hout, by simp [hleft, Nat.ne_of_gt hpos], hdisable⟩
      · rename_i hmore
        have hleft := mt (retrieve_empty_iff _ _).mpr hmore
        exact ⟨rfl, hout, by simpa [hw] using Or.inr hleft, hwrite⟩
    · rename_i hzero
      -- `handleWrite` takes a write of 0 bytes for a failure
      have hz : n = 0 := by omega
      subst hz
      exact ⟨rfl, rfl, by simp [hw], hwrite⟩

theorem handleWriteDrain_idle {c : TcpConnection} (hw : c.channel_.isWriting = false)
    (result : WriteResult) : c.handleWriteDrain result = (c, false) := by
  rw [handleWriteDrain, hw]
  rfl

theorem isWriting_established (this : Ptr) (sockfd : Int) (writeComplete highWater : Bool) :
    (established this sockfd writeComplete highWater).channel_.isWriting = false :=
  (Channel.isWriting_setEvents _ _ _ _).trans
    (show (((0 : Mask) ||| kReadEvent) &&& kWriteEvent != 0) = false by decide)

theorem trace_established (this : Ptr) (sockfd : Int) (writeComplete highWater : Bool) :
    (established this sockfd writeComplete highWater).trace =
      [.epollCtl .ADD sockfd true, .connectionCallback true] := rfl

/-- The channel waits for the socket exactly while bytes wait for the channel. -/
def Waiting (c : TcpConnection) : Prop :=
  c.channel_.isWriting = true ↔ c.outputBuffer_.readable ≠ []

theorem waiting_established (this : Ptr) (sockfd : Int) (writeComplete highWater : Bool) :
    (established this sockfd writeComplete highWater).Waiting := by
  have hempty : (established this sockfd writeComplete highWater).outputBuffer_.readable = [] :=
    rfl
  rw [Waiting, isWriting_established, hempty]
  decide

theorem Waiting.sendInLoop {c : TcpConnection} (h : c.Waiting) (hstate : c.state_ ≠ .kDisconnceted)
    (data : Bytes) (result : WriteResult) : (c.sendInLoop data result).Waiting := by
  by_cases hdirect : c.writesDirectly
  · have ho := sendInLoop_direct hstate hdirect data result
    rw [Waiting, ho.writing_iff, ho.out_eq]
  · -- the channel was writing, or becomes so because of `data`
    have ho := sendInLoop_queued hstate hdirect data result
    rw [Waiting] at h ⊢
    rw [ho.writing_iff, ho.out_eq, h, ne_eq, ne_eq, ne_eq, List.append_eq_nil_iff, not_and_or]

theorem Waiting.handleWriteDrain {c : TcpConnection} (h : c.Waiting) (result : WriteResult) :
    (c.handleWriteDrain result).1.Waiting := by
  by_cases hw : c.channel_.isWriting = true
  · have ho := handleWriteDrain_spec hw result
    rw [Waiting, ho.writing_iff, ho.out_eq]
    constructor
    · rintro (hzero | hleft)
      · rw [hzero]
        exact h.mp hw
      · exact hleft
    · exact Or.inr
  · rw [handleWriteDrain_idle (by simpa using hw)]
    exact h

/-! ## Closing -/

/-- On a disconnected connection user code only reaches the input buffer. -/
theorem user_disconnected {c : TcpConnection} (h : c.state_ = .kDisconnceted) (act : UserAct) :
    ∃ input, c.user act = { c with inputBuffer_ := input } := by
  have hne : c.state_ ≠ .kConnected := by rw [h]; decide
  cases act with
  | send buf result => exact ⟨_, if_neg hne⟩
  | shutdown => exact ⟨_, if_neg hne⟩
  | retrieve len => exact ⟨_, rfl⟩

theorem users_disconnected {c : TcpConnection} (h : c.state_ = .kDisconnceted)
    (acts : List UserAct) : ∃ input, acts.foldl user c = { c with inputBuffer_ := input } := by
  induction acts generalizing c with
  | nil => exact ⟨_, rfl⟩
  | cons act acts ih =>
    obtain ⟨input, hact⟩ := user_disconnected h act
    obtain ⟨input', hacts⟩ := @ih { c with inputBuffer_ := input } h
    exact ⟨input', by rw [List.foldl_cons, hact, hacts]⟩

/-- What the user does while the connection closes has no effect on the output side. -/
theorem handleClose_eq (c : TcpConnection) (acts : List UserAct) :
    ∃ input, c.handleClose acts = { c.handleClose [] with inputBuffer_ := input } := by
  -- `connectionCallback_` already sees `kDisconnceted`
  obtain ⟨input, h⟩ := users_disconnected (c := (((c.emit
    (.handleClose c.outputBuffer_.readableBytes)).setState .kDisconnceted).onChannel
    Channel.disableAll).emit (.connectionCallback false)) rfl acts
  exact ⟨input, congrArg (emit · .closeCallback) h⟩

/-- At the end of the stream `handleRead` closes. -/
theorem handleRead_end (c : TcpConnection) (acts : List UserAct) :
    ∃ input, c.handleRead (.stored []) acts =
      TcpConnection.handleClose { c with inputBuffer_ := input } acts := by
  have hzero : (c.inputBuffer_.readFd (.stored [])).2.1 = 0 := ValidBuffer.readFd_eq_zero.mpr rfl
  refine ⟨(c.inputBuffer_.readFd (.stored [])).1, ?_⟩
  rw [handleRead]
  simp only [hzero, Int.lt_irrefl, if_false, if_true]

theorem handleWrite_idle {c : TcpConnection} (hw : c.channel_.isWriting = false)
    (result : WriteResult) : c.handleWrite result = c := by
  rw [handleWrite, handleWriteDrain_idle hw]
  simp

/-! ## What the functions store in `state_` -/

theorem state_sendInLoop (c : TcpConnection) (data : Bytes) (result : WriteResult) :
    (c.sendInLoop data result).state_ = c.state_ := by
  by_cases hstate : c.state_ = .kDisconnceted
  · rw [sendInLoop_giveUp hstate]
  · by_cases hdirect : c.writesDirectly
    · exact (sendInLoop_direct hstate hdirect data result).state_eq
    · exact (sendInLoop_queued hstate hdirect data result).state_eq

theorem state_send (c : TcpConnection) (buf : Bytes) (result : WriteResult) :
    (c.send buf result).state_ = c.state_ := by
  rw [send]
  split
  · exact state_sendInLoop _ _ _
  · rfl

theorem state_shutdownInLoop (c : TcpConnection) : c.shutdownInLoop.state_ = c.state_ := by
  rw [shutdownInLoop]
  split <;> rfl

theorem state_handleClose (c : TcpConnection) (acts : List UserAct) :
    (c.handleClose acts).state_ = .kDisconnceted := by
  obtain ⟨input, heq⟩ := c.handleClose_eq acts
  rw [heq]
  rfl

theorem state_shutdown (c : TcpConnection) :
    c.shutdown.state_ = if c.state_ = .kConnected then .kDisconnecting else c.state_ := by
  rw [shutdown]
  split
  · exact state_shutdownInLoop _
  · rfl

theorem state_connectDestroyed (c : TcpConnection) :
    c.connectDestroyed.state_ = if c.state_ = .kConnected then .kDisconnceted else c.state_ := by
  rw [connectDestroyed, state_onChannel]
  split <;> rfl

theorem state_handleWrite (c : TcpConnection) (result : WriteResult) :
    (c.handleWrite result).state_ = c.state_ := by
  have hdrain : (c.handleWriteDrain result).1.state_ = c.state_ := by
    by_cases hw : c.channel_.isWriting = true
    · exact (handleWriteDrain_spec hw result).state_eq
    · rw [handleWriteDrain_idle (by simpa using hw)]
  rw [handleWrite]
  dsimp only
  split
  · exact (state_shutdownInLoop _).trans hdrain
  · exact hdrain

/-! ## Connections known to the poller -/

/-- The channel is in step with the poller and the kernel, and the process runs. -/
structure Sound (c : TcpConnection) : Prop where
  synced : Synced c.poller c.this c.channel_
  alive : c.poller.exited = false

theorem sound_create (this : Ptr) (sockfd : Int) (writeComplete highWater : Bool) :
    (create this sockfd writeComplete highWater).Sound :=
  ⟨⟨rfl, rfl⟩, rfl⟩

theorem Sound.emit {c : TcpConnection} (h : c.Sound) (e : Event) : (c.emit e).Sound :=
  ⟨⟨h.synced.interest, h.synced.channels⟩, h.alive⟩

theorem Sound.setState {c : TcpConnection} (h : c.Sound) (state : StateE) :
    (c.setState state).Sound :=
  ⟨h.synced, h.alive⟩

theorem Sound.setEvents {c : TcpConnection} (h : c.Sound) (events : Channel → Mask) :
    (c.onChannel fun p this ch => ch.setEvents p this (events ch)).Sound := by
  have he := h.synced.setEvents (events c.channel_)
  exact ⟨by simpa only [onChannel, he.channel] using he.synced, he.exited.trans h.alive⟩

theorem Sound.trace_setEvents {c : TcpConnection} (h : c.Sound) (events : Channel → Mask) :
    (c.onChannel fun p this ch => ch.setEvents p this (events ch)).trace =
      c.trace ++ [.epollCtl (c.channel_.index_.updateOp (events c.channel_)) c.channel_.fd_ true] :=
  (h.synced.setEvents (events c.channel_)).trace

theorem Sound.remove {c : TcpConnection} (h : c.Sound) : (c.onChannel Channel.remove).Sound := by
  have he := h.synced.remove
  exact ⟨by simpa only [onChannel, he.channel] using he.synced, he.exited.trans h.alive⟩

theorem Sound.bufferRemaining {c : TcpConnection} (h : c.Sound) (rest : Bytes) :
    (c.bufferRemaining rest).Sound := by
  rw [TcpConnection.bufferRemaining]
  split
  · have hnotify : (c.notifyHighWaterMark rest.length).Sound := by
      rw [notifyHighWaterMark]
      split
      · exact h.emit _
      · exact h
    have hbuffer : Sound { c.notifyHighWaterMark rest.length with
        outputBuffer_ := (c.notifyHighWaterMark rest.length).outputBuffer_.append rest } :=
      ⟨hnotify.synced, hnotify.alive⟩
    dsimp only
    split
    · exact hbuffer
    · exact hbuffer.setEvents fun ch => ch.events_ ||| kWriteEvent
  · exact h

theorem Sound.sendInLoop {c : TcpConnection} (h : c.Sound) (data : Bytes)
    (result : WriteResult) : (c.sendInLoop data result).Sound := by
  have hwrite := h.emit (.write data result)
  rw [TcpConnection.sendInLoop]
  split
  · exact h
  · split
    · cases result with
      | wrote nwrote =>
        dsimp only
        split
        · exact (hwrite.emit _).bufferRemaining _
        · exact hwrite.bufferRemaining _
      | failed errno =>
        dsimp only
        split
        · exact hwrite
        · exact hwrite.bufferRemaining _
    · exact h.bufferRemaining _

theorem Sound.send {c : TcpConnection} (h : c.Sound) (buf : Bytes) (result : WriteResult) :
    (c.send buf result).Sound := by
  rw [TcpConnection.send]
  split
  · exact (h.emit _).sendInLoop _ _
  · exact h

theorem Sound.shutdownInLoop {c : TcpConnection} (h : c.Sound) : c.shutdownInLoop.Sound := by
  rw [TcpConnection.shutdownInLoop]
  split
  · exact h.emit _
  · exact h

theorem Sound.shutdown {c : TcpConnection} (h : c.Sound) : c.shutdown.Sound := by
  rw [TcpConnection.shutdown]
  split
  · exact (h.setState _).shutdownInLoop
  · exact h

theorem Sound.handleWriteDrain {c : TcpConnection} (h : c.Sound) (result : WriteResult) :
    (c.handleWriteDrain result).1.Sound := by
  have hwrite := h.emit (.write c.outputBuffer_.readable result)
  rw [TcpConnection.handleWriteDrain, ValidBuffer.writeFd_eq]
  split
  · cases result with
    | wrote n =>
      have hretrieve : Sound { c.emit (.write c.outputBuffer_.readable (.wrote n)) with
          outputBuffer_ := c.outputBuffer_.retrieve n } := ⟨hwrite.synced, hwrite.alive⟩
      have hdisable := hretrieve.setEvents fun ch => ch.events_ &&& ~~~kWriteEvent
      dsimp only
      split
      · split
        · split
          · exact hdisable.emit _
          · exact hdisable
        · exact hretrieve
      · exact hwrite
    | failed errno => exact hwrite
  · exact h

theorem Sound.handleWrite {c : TcpConnection} (h : c.Sound) (result : WriteResult) :
    (c.handleWrite result).Sound := by
  rw [TcpConnection.handleWrite]
  dsimp only
  split
  · exact (h.handleWriteDrain result).shutdownInLoop
  · exact h.handleWriteDrain result

theorem Sound.user {c : TcpConnection} (h : c.Sound) (act : UserAct) : (c.user act).Sound := by
  cases act with
  | send buf result => exact h.send buf result
  | shutdown => exact h.shutdown
  | retrieve len => exact ⟨h.synced, h.alive⟩

theorem Sound.users {c : TcpConnection} (h : c.Sound) (acts : List UserAct) :
    (acts.foldl TcpConnection.user c).Sound := by
  induction acts generalizing c with
  | nil => exact h
  | cons act acts ih => exact ih (h.user act)

theorem Sound.handleClose {c : TcpConnection} (h : c.Sound) (acts : List UserAct) :
    (c.handleClose acts).Sound := by
  have hdisable := ((h.emit (.handleClose c.outputBuffer_.readableBytes)).setState
    .kDisconnceted).setEvents fun _ => kNoneEvent
  exact ((hdisable.emit _).users acts).emit _

/-- Closing leaves the bytes that were not sent in `outputBuffer_` and stops writing. -/
structure Closed (c c' : TcpConnection) : Prop where
  state_eq : c'.state_ = .kDisconnceted
  out_eq : c'.outputBuffer_ = c.outputBuffer_
  idle : c'.channel_.isWriting = false
  index_eq : c'.channel_.index_ = c.channel_.index_.afterUpdate kNoneEvent
  trace_eq : c'.trace = c.trace ++ [.handleClose c.outputBuffer_.readableBytes,
    .epollCtl (c.channel_.index_.updateOp kNoneEvent) c.channel_.fd_ true,
    .connectionCallback false, .closeCallback]

theorem Sound.handleClose_spec {c : TcpConnection} (h : c.Sound) (acts : List UserAct) :
    Closed c (c.handleClose acts) := by
  obtain ⟨input, heq⟩ := c.handleClose_eq acts
  have hclosing := (h.emit (.handleClose c.outputBuffer_.readableBytes)).setState .kDisconnceted
  have hdisable := hclosing.synced.setEvents kNoneEvent
  have htrace : (c.handleClose []).trace = _ ++ [.connectionCallback false] ++ [.closeCallback] :=
    congrArg (· ++ [Event.connectionCallback false] ++ [.closeCallback])
      (hclosing.trace_setEvents fun _ => kNoneEvent)
  rw [heq]
  refine ⟨rfl, rfl, isWriting_disableAll _, ?_, ?_⟩
  · exact congrArg Channel.index_ hdisable.channel
  · exact htrace.trans (by simp)

theorem Sound.connectEstablished {c : TcpConnection} (h : c.Sound) :
    c.connectEstablished.Sound := by
  have htie : Sound { c.setState .kConnected with
      channel_ := { c.channel_ with tied_ := true } } :=
    ⟨⟨h.synced.interest, h.synced.channels⟩, h.alive⟩
  exact (htie.setEvents fun ch => ch.events_ ||| kReadEvent).emit _

theorem sound_established (this : Ptr) (sockfd : Int) (writeComplete highWater : Bool) :
    (established this sockfd writeComplete highWater).Sound :=
  (sound_create this sockfd writeComplete highWater).connectEstablished

theorem Sound.connectDestroyed {c : TcpConnection} (h : c.Sound) :
    c.connectDestroyed.Sound := by
  rw [TcpConnection.connectDestroyed]
  refine Sound.remove ?_
  split
  · exact ((h.setState .kDisconnceted).setEvents fun _ => kNoneEvent).emit _
  · exact h

end TcpConnection
end CppInOne.Mymuduo
