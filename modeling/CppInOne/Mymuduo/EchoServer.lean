import CppInOne.Mymuduo.OutputStream

/-!
# The echo server

The server of `example/testserver.cc` answers from `onMessage`: it takes all bytes out of the
input buffer, sends them back and shuts down the write side. The connection below runs with
these callbacks, and the poller reports to it in any order. The bytes of the first message come
back in order and, unless the connection breaks, in full; nothing else is ever sent.
-/

namespace CppInOne.Mymuduo.EchoServer
open Transition TcpConnection OutputStream

/-! ## The callbacks of the server -/

/-- `onConnection` only logs. -/
def onConnection : List UserAct := []

/-- `onMessage` on the buffer `buf`; `result` is what `::write` returns to `send`. -/
def onMessage (buf : ValidBuffer) (result : WriteResult) : List UserAct :=
  let msg := buf.readable
  -- `retrieveAllAsString` has copied `msg` before it retrieves
  [.retrieve buf.readableBytes, .send msg result, .shutdown]

/-- What the system calls return while one event is handled. -/
structure Answers where
  readv : Readv
  /-- For the `::write` of `send`, and for that of `handleWrite`. -/
  reply : WriteResult
  write : WriteResult
  deriving DecidableEq, Repr

/-- The callbacks of the server, on the buffer that `handleRead` fills. -/
def outcomes (c : TcpConnection) (a : Answers) : Outcomes :=
  let (buf, n, _) := c.inputBuffer_.readFd a.readv
  { readv := a.readv
    write := a.write
    atClose := onConnection
    atRead := if 0 < n then onMessage buf a.reply else onConnection }

/-! ## Runs -/

/-- A connection with the messages that `onMessage` was given, each with `connected()` at that
time. -/
structure Session where
  conn : TcpConnection
  messages : List (Bool × Bytes)

/-- The message that `handleRead` passes on. -/
def received (c : TcpConnection) (a : Answers) : List (Bool × Bytes) :=
  let (buf, n, _) := c.inputBuffer_.readFd a.readv
  if 0 < n then [(c.connected, buf.readable)] else []

/-- One callback of the channel; nothing happens any more once the process has exited. -/
def callback (s : Session) (cb : Callback × Answers) : Option Session :=
  if s.conn.poller.exited then none
  else some
    { conn := invoke (outcomes s.conn cb.2) s.conn cb.1
      messages := s.messages ++ if cb.1 = .read then received s.conn cb.2 else [] }

/-- The poller reports `revents` for the channel. -/
structure Ready where
  revents : Mask
  alive : Bool
  answers : Answers
  deriving DecidableEq, Repr

/-- The callbacks that `handleEvent` makes. -/
def callbacks (c : TcpConnection) (e : Ready) : List (Callback × Answers) :=
  ({ c.channel_ with revents_ := e.revents }.handleEvent e.alive).map fun cb => (cb, e.answers)

def setRevents (s : Session) (revents : Mask) : Session :=
  { s with conn := { s.conn with channel_ := { s.conn.channel_ with revents_ := revents } } }

def step (s : Session) (e : Ready) : Option Session :=
  run callback (setRevents s e.revents) (callbacks s.conn e)

def start (this : Ptr) (sockfd : Int) (writeComplete highWater : Bool) : Session where
  conn := established this sockfd writeComplete highWater
  messages := []

/-- `::write` keeps its contract in the callback. -/
def CallbackAllowed (s : Session) (cb : Callback × Answers) : Prop :=
  match cb.1 with
  | .read =>
    KernelAllows s.conn (.send (s.conn.inputBuffer_.readFd cb.2.readv).1.readable cb.2.reply)
  | .write => KernelAllows s.conn (.handleWrite cb.2.write)
  | .close | .error => True

instance (s : Session) : ∀ cb, Decidable (CallbackAllowed s cb)
  | (.read, a) => inferInstanceAs (Decidable (KernelAllows s.conn
      (.send (s.conn.inputBuffer_.readFd a.readv).1.readable a.reply)))
  | (.write, a) => inferInstanceAs (Decidable (KernelAllows s.conn (.handleWrite a.write)))
  | (.close, _) => .isTrue trivial
  | (.error, _) => .isTrue trivial

/-- `::write` keeps its contract in every callback of the event. -/
def Allowed (s : Session) (e : Ready) : Prop :=
  Guarded callback CallbackAllowed (setRevents s e.revents) (callbacks s.conn e)

instance (s : Session) (e : Ready) : Decidable (Allowed s e) :=
  inferInstanceAs (Decidable (Guarded _ _ _ _))

/-! ## The answer -/

/-- The bytes of the first message, if it found the connection connected. -/
def answer : List (Bool × Bytes) → Bytes
  | (true, msg) :: _ => msg
  | _ => []

/-- How often the write side was shut down. -/
def shutdowns (t : List Event) : Nat :=
  t.countP fun
    | .shutdownWrite _ => true
    | _ => false

@[simp] theorem shutdowns_append (t s : List Event) :
    shutdowns (t ++ s) = shutdowns t + shutdowns s :=
  List.countP_append

theorem shutdowns_quiet {s : List Event} (h : ∀ e ∈ s, e.quiet = true) : shutdowns s = 0 := by
  refine List.countP_eq_zero.mpr fun e he => ?_
  have hq := h e he
  cases e <;> simp_all [Event.quiet]

theorem shutdowns_went {c c' : TcpConnection} {io : List Event} (h : Went c io c') :
    shutdowns c'.trace = shutdowns c.trace + shutdowns io := by
  obtain ⟨quiet, hquiet, htrace⟩ := h
  rw [htrace, shutdowns_append, shutdowns_append, shutdowns_quiet hquiet, Nat.add_zero]

theorem answer_append_false (ms : List (Bool × Bytes)) (msg : Bytes) :
    answer (ms ++ [(false, msg)]) = answer ms := by
  cases ms with
  | nil => rfl
  | cons m ms =>
    obtain ⟨_ | _, _⟩ := m
    · rfl
    · rfl

/-! ## The write side is shut down once, behind the last byte -/

structure ShutLast (c : TcpConnection) : Prop where
  once : shutdowns c.trace = 0 ∨ shutdowns c.trace = 1 ∧ c.outputBuffer_.readable = []
  connected : c.state_ = .kConnected → shutdowns c.trace = 0
  drained : c.state_ = .kDisconnecting → c.outputBuffer_.readable = [] → shutdowns c.trace = 1

theorem shutLast_established (this : Ptr) (sockfd : Int) (writeComplete highWater : Bool) :
    ShutLast (established this sockfd writeComplete highWater) where
  once := Or.inl rfl
  connected _ := rfl
  drained h := by cases h

/-- Nothing that shows in `ShutLast` has changed. -/
theorem ShutLast.same {c c' : TcpConnection} {io : List Event} (h : ShutLast c)
    (hwent : Went c io c') (hio : shutdowns io = 0) (hstate : c'.state_ = c.state_)
    (hout : c'.outputBuffer_ = c.outputBuffer_) : ShutLast c' := by
  have hcount : shutdowns c'.trace = shutdowns c.trace := by
    rw [shutdowns_went hwent, hio, Nat.add_zero]
  constructor
  · rw [hcount, hout]
    exact h.once
  · rw [hcount, hstate]
    exact h.connected
  · rw [hcount, hstate, hout]
    exact h.drained

theorem went_send {c : TcpConnection} (hstate : c.state_ = .kConnected) (buf : Bytes)
    (result : WriteResult) :
    ∃ io, Went c io (c.send buf result) ∧ shutdowns io = 0 ∧ sent io = buf := by
  rw [TcpConnection.send, if_pos hstate]
  by_cases hdirect : c.writesDirectly
  · have ho := sendInLoop_direct (c := c.emit (.send buf)) (by simp [hstate]) hdirect buf result
    exact ⟨_, ho.went.of_emit, rfl, List.append_nil buf⟩
  · have ho := sendInLoop_queued (c := c.emit (.send buf)) (by simp [hstate]) hdirect buf result
    exact ⟨_, ho.went.of_emit, rfl, List.append_nil buf⟩

theorem ShutLast.send {c : TcpConnection} (h : ShutLast c) (buf : Bytes) (result : WriteResult) :
    ShutLast (c.send buf result) := by
  by_cases hstate : c.state_ = .kConnected
  · obtain ⟨io, hwent, hio, _⟩ := went_send hstate buf result
    have hstate' := (state_send c buf result).trans hstate
    have hzero : shutdowns (c.send buf result).trace = 0 := by
      rw [shutdowns_went hwent, hio, h.connected hstate]
    exact ⟨Or.inl hzero, fun _ => hzero, fun hd => by rw [hstate'] at hd; cases hd⟩
  · rw [TcpConnection.send, if_neg hstate]
    exact h

/-- Either bytes wait, or the write side is shut down at once. -/
theorem ShutLast.shutdown {c : TcpConnection} (h : ShutLast c) (hc : Inv c) :
    ShutLast c.shutdown := by
  by_cases hstate : c.state_ = .kConnected
  · have hwaiting := hc.waiting (Or.inl hstate)
    rw [Waiting] at hwaiting
    rw [TcpConnection.shutdown, if_pos hstate, shutdownInLoop]
    by_cases hw : c.channel_.isWriting = true
    · rw [if_neg (by simpa using hw)]
      refine ⟨Or.inl (h.connected hstate), fun hd => (by cases hd), fun _ hempty => ?_⟩
      exact absurd hempty (hwaiting.mp hw)
    · have hempty : c.outputBuffer_.readable = [] := by
        by_contra hne
        exact hw (hwaiting.mpr hne)
      have hone : shutdowns ((c.setState .kDisconnecting).emit
          (.shutdownWrite c.outputBuffer_.readableBytes)).trace = 1 := by
        rw [shutdowns_went (went_emit _ _), trace_setState, h.connected hstate]
        rfl
      rw [if_pos (by simpa using hw)]
      exact ⟨Or.inr ⟨hone, hempty⟩, fun hd => (by cases hd), fun _ _ => hone⟩
  · rw [TcpConnection.shutdown, if_neg hstate]
    exact h

/-- `handleWrite` reaches its test of `state_` when the last byte is out. -/
theorem handleWriteDrain_drained {c : TcpConnection} (hw : c.channel_.isWriting = true)
    (result : WriteResult) :
    (c.handleWriteDrain result).2 = true ↔
      0 < result.accepted ∧ c.outputBuffer_.readable.drop result.accepted = [] := by
  rw [handleWriteDrain, if_pos hw, ValidBuffer.writeFd_eq]
  cases result with
  | failed errno => exact ⟨fun h => (by cases h), fun h => absurd h.1 (Nat.lt_irrefl 0)⟩
  | wrote n =>
    dsimp only [WriteResult.accepted_wrote]
    split
    · rename_i hpos
      split
      · rename_i hempty
        exact ⟨fun _ => ⟨hpos, (retrieve_empty_iff _ _).mp hempty⟩, fun _ => rfl⟩
      · rename_i hmore
        exact ⟨fun h => (by cases h), fun h => absurd ((retrieve_empty_iff _ _).mpr h.2) hmore⟩
    · rename_i hzero
      exact ⟨fun h => (by cases h), fun h => absurd h.1 hzero⟩

theorem ShutLast.handleWrite {c : TcpConnection} (h : ShutLast c) (hc : Inv c)
    (result : WriteResult) : ShutLast (c.handleWrite result) := by
  by_cases hw : c.channel_.isWriting = true
  · have hlive : Live c := by
      by_contra hdead
      rw [hc.idle hdead] at hw
      cases hw
    have hne : c.outputBuffer_.readable ≠ [] := (hc.waiting hlive).mp hw
    -- bytes wait, so the write side is still open
    have hzero : shutdowns c.trace = 0 := h.once.resolve_right fun hone => hne hone.2
    have ho := handleWriteDrain_spec hw result
    have hcount : shutdowns (c.handleWriteDrain result).1.trace = 0 := by
      rw [shutdowns_went ho.went, hzero]
      rfl
    have hdrained := handleWriteDrain_drained hw result
    rw [TcpConnection.handleWrite]
    dsimp only
    split
    · rename_i hlast
      have hempty := (hdrained.mp hlast.1).2
      have hidle : ¬ (c.handleWriteDrain result).1.channel_.isWriting = true := by
        rw [ho.writing_iff]
        rintro (hnone | hleft)
        · exact Nat.ne_of_gt (hdrained.mp hlast.1).1 hnone
        · exact hleft hempty
      rw [shutdownInLoop, if_pos hidle]
      have hone : shutdowns ((c.handleWriteDrain result).1.emit (.shutdownWrite
          (c.handleWriteDrain result).1.outputBuffer_.readableBytes)).trace = 1 := by
        rw [shutdowns_went (went_emit _ _), hcount]
        rfl
      refine ⟨Or.inr ⟨hone, ho.out_eq.trans hempty⟩, fun hd => ?_, fun _ _ => hone⟩
      rw [state_emit, hlast.2] at hd
      cases hd
    · rename_i hmore
      refine ⟨Or.inl hcount, fun _ => hcount, fun hd hempty => ?_⟩
      -- bytes are left unless the kernel took none
      refine absurd ⟨hdrained.mpr ⟨?_, ho.out_eq.symm.trans hempty⟩, hd⟩ hmore
      by_contra hnone
      rw [ho.out_eq, Nat.eq_zero_of_not_pos hnone] at hempty
      exact hne hempty
  · rw [handleWrite_idle (by simpa using hw)]
    exact h

theorem ShutLast.handleClose {c : TcpConnection} (h : ShutLast c) (hc : c.Sound)
    (acts : List UserAct) : ShutLast (c.handleClose acts) := by
  have hclosed := hc.handleClose_spec acts
  have hcount : shutdowns (c.handleClose acts).trace = shutdowns c.trace := by
    rw [hclosed.trace_eq, shutdowns_append]
    rfl
  refine ⟨?_, fun hd => ?_, fun hd => ?_⟩
  · rw [hcount, hclosed.out_eq]
    exact h.once
  · rw [hclosed.state_eq] at hd
    cases hd
  · rw [hclosed.state_eq] at hd
    cases hd

/-! ## What the callbacks leave alone -/

theorem input_send (c : TcpConnection) (buf : Bytes) (result : WriteResult) :
    (c.send buf result).inputBuffer_ = c.inputBuffer_ := by
  have hremaining : ∀ (c : TcpConnection) (rest : Bytes),
      (c.bufferRemaining rest).inputBuffer_ = c.inputBuffer_ := by
    intro c rest
    obtain ⟨p, hp, _⟩ := c.notifyHighWaterMark_spec rest.length
    rw [bufferRemaining, hp]
    dsimp only
    split
    · split <;> rfl
    · rfl
  rw [TcpConnection.send]
  split
  · rw [sendInLoop]
    split
    · rfl
    · split
      · cases result with
        | wrote nwrote =>
          dsimp only
          split <;> exact hremaining _ _
        | failed errno =>
          dsimp only
          split
          · rfl
          · exact hremaining _ _
      · exact hremaining _ _
  · rfl

theorem input_shutdownInLoop (c : TcpConnection) :
    c.shutdownInLoop.inputBuffer_ = c.inputBuffer_ := by
  rw [shutdownInLoop]
  split <;> rfl

theorem input_shutdown (c : TcpConnection) : c.shutdown.inputBuffer_ = c.inputBuffer_ := by
  rw [shutdown]
  split
  · exact input_shutdownInLoop _
  · rfl

theorem input_handleWrite (c : TcpConnection) (result : WriteResult) :
    (c.handleWrite result).inputBuffer_ = c.inputBuffer_ := by
  have hdrain : (c.handleWriteDrain result).1.inputBuffer_ = c.inputBuffer_ := by
    rw [handleWriteDrain, ValidBuffer.writeFd_eq]
    split
    · cases result with
      | wrote n =>
        dsimp only
        split
        · split
          · split <;> rfl
          · rfl
        · rfl
      | failed errno => rfl
    · rfl
  rw [handleWrite]
  dsimp only
  split
  · exact (input_shutdownInLoop _).trans hdrain
  · exact hdrain

theorem sent_shutdownInLoop (c : TcpConnection) : sent c.shutdownInLoop.trace = sent c.trace := by
  rw [shutdownInLoop]
  split
  · exact (sent_went (went_emit c _)).trans (List.append_nil _)
  · rfl

theorem sent_shutdown (c : TcpConnection) : sent c.shutdown.trace = sent c.trace := by
  rw [shutdown]
  split
  · exact sent_shutdownInLoop _
  · rfl

theorem sent_handleWrite (c : TcpConnection) (result : WriteResult) :
    sent (c.handleWrite result).trace = sent c.trace := by
  have hdrain : sent (c.handleWriteDrain result).1.trace = sent c.trace := by
    by_cases hw : c.channel_.isWriting = true
    · exact (sent_went (handleWriteDrain_spec hw result).went).trans (List.append_nil _)
    · rw [handleWriteDrain_idle (by simpa using hw)]
  rw [handleWrite]
  dsimp only
  split
  · exact (sent_shutdownInLoop _).trans hdrain
  · exact hdrain

theorem sent_handleClose {c : TcpConnection} (h : c.Sound) (acts : List UserAct) :
    sent (c.handleClose acts).trace = sent c.trace := by
  rw [(h.handleClose_spec acts).trace_eq, sent_append]
  exact List.append_nil _

theorem inv_input {c : TcpConnection} (h : Inv c) (input : ValidBuffer) :
    Inv { c with inputBuffer_ := input } :=
  ⟨⟨h.sound.synced, h.sound.alive⟩, h.stream, h.ordered, h.waiting, h.idle⟩

theorem readable_readFd_of_not_pos {b : ValidBuffer} {r : Readv} (h : ¬ 0 < (b.readFd r).2.1) :
    (b.readFd r).1.readable = b.readable := by
  cases r with
  | failed errno => rfl
  | stored pending =>
    obtain ⟨b', hread, hvalid, hreadable⟩ :=
      b.property.readFd (List.length_take_le b.val.iovTotal pending)
    have hn : (b.readFd (.stored pending)).2.1 = ((pending.take b.val.iovTotal).length : Int) := by
      simp [ValidBuffer.readFd, hread]
    have hb : (b.readFd (.stored pending)).1.readable = b'.readable := by
      simp [ValidBuffer.readFd, ValidBuffer.readable, hread]
    have hnil : pending.take b.val.iovTotal = [] := by
      rw [hn] at h
      exact List.eq_nil_of_length_eq_zero (by omega)
    rw [hb, hreadable, hnil, List.append_nil]
    rfl

/-- An event that is neither a send nor a write does not touch the streams. -/
theorem inv_emit {c : TcpConnection} (h : Inv c) {e : Event} (hsent : sent [e] = [])
    (haccepted : accepted [e] = []) : Inv (c.emit e) := by
  refine h.output (h.sound.emit e) (went_emit c e) (fun _ => ?_) ?_ (fun _ => haccepted)
    h.waiting h.idle
  · rw [hsent, haccepted, List.append_nil]
    rfl
  · rw [haccepted]
    exact List.nil_prefix

/-! ## The invariant -/

structure Echoing (s : Session) : Prop where
  out : Inv s.conn
  shut : ShutLast s.conn
  /-- `onMessage` leaves nothing in the input buffer. -/
  consumed : s.conn.inputBuffer_.readable = []
  sent_eq : sent s.conn.trace = answer s.messages
  fresh : s.conn.state_ = .kConnected → s.messages = []
  later : ∀ m ∈ s.messages.tail, m.1 = false

theorem echoing_start (this : Ptr) (sockfd : Int) (writeComplete highWater : Bool) :
    Echoing (start this sockfd writeComplete highWater) where
  out := inv_established this sockfd writeComplete highWater
  shut := shutLast_established this sockfd writeComplete highWater
  consumed := ValidBuffer.readable_create kInitialSize
  sent_eq := rfl
  fresh _ := rfl
  later _ hm := absurd hm List.not_mem_nil

theorem Echoing.setRevents {s : Session} (h : Echoing s) (revents : Mask) :
    Echoing (setRevents s revents) where
  out := ⟨⟨⟨h.out.sound.synced.interest, h.out.sound.synced.channels⟩, h.out.sound.alive⟩,
    h.out.stream, h.out.ordered, h.out.waiting, h.out.idle⟩
  shut := ⟨h.shut.once, h.shut.connected, h.shut.drained⟩
  consumed := h.consumed
  sent_eq := h.sent_eq
  fresh := h.fresh
  later := h.later

/-- A callback that receives nothing and sends nothing. -/
theorem Echoing.silent {s : Session} (h : Echoing s) {c : TcpConnection} (hout : Inv c)
    (hshut : ShutLast c) (hinput : c.inputBuffer_ = s.conn.inputBuffer_)
    (hsent : sent c.trace = sent s.conn.trace)
    (hstate : c.state_ = .kConnected → s.conn.state_ = .kConnected) :
    Echoing ⟨c, s.messages⟩ where
  out := hout
  shut := hshut
  consumed := by rw [hinput, h.consumed]
  sent_eq := by rw [hsent, h.sent_eq]
  fresh hc := h.fresh (hstate hc)
  later := h.later

theorem Echoing.handleClose {s : Session} (h : Echoing s) :
    Echoing ⟨s.conn.handleClose onConnection, s.messages⟩ := by
  refine h.silent (h.out.handleClose _) (h.shut.handleClose h.out.sound _) rfl
    (sent_handleClose h.out.sound _) fun hc => ?_
  rw [state_handleClose] at hc
  cases hc

theorem Echoing.handleError {s : Session} (h : Echoing s) :
    Echoing ⟨s.conn.handleError, s.messages⟩ :=
  h.silent (inv_emit h.out rfl rfl) (h.shut.same (went_emit _ _) rfl rfl rfl) rfl
    ((sent_went (went_emit _ _)).trans (List.append_nil _)) id

theorem Echoing.handleWrite {s : Session} (h : Echoing s) {result : WriteResult}
    (hallows : KernelAllows s.conn (.handleWrite result)) :
    Echoing ⟨s.conn.handleWrite result, s.messages⟩ := by
  refine h.silent (h.out.handleWrite hallows) (h.shut.handleWrite h.out result)
    (input_handleWrite _ _) (sent_handleWrite _ _) fun hc => ?_
  rwa [state_handleWrite] at hc

/-- Only the first message finds the connection connected. -/
theorem Echoing.message {s : Session} (h : Echoing s) {buf : ValidBuffer} {result : WriteResult}
    (hallows : KernelAllows s.conn (.send buf.readable result)) :
    Echoing ⟨(onMessage buf result).foldl user
        ({ s.conn with inputBuffer_ := buf }.emit .messageCallback),
      s.messages ++ [(s.conn.connected, buf.readable)]⟩ := by
  let c := { s.conn with inputBuffer_ := buf.retrieve buf.readableBytes }.emit .messageCallback
  have hacts : (onMessage buf result).foldl user
      ({ s.conn with inputBuffer_ := buf }.emit .messageCallback) =
      (c.send buf.readable result).shutdown := rfl
  have hc : Inv c := inv_emit (inv_input h.out _) rfl rfl
  have hshut : ShutLast c :=
    ShutLast.same (c := { s.conn with inputBuffer_ := buf.retrieve buf.readableBytes })
      ⟨h.shut.once, h.shut.connected, h.shut.drained⟩ (went_emit _ _) rfl rfl rfl
  have hsentc : sent c.trace = sent s.conn.trace :=
    (sent_went (went_emit _ _)).trans (List.append_nil _)
  have hfault : faulted c.trace = faulted s.conn.trace :=
    (faulted_went (went_emit _ _)).trans (Bool.or_false _)
  have hsend : Inv (c.send buf.readable result) := by
    refine hc.send ⟨hallows.1, fun hf => hallows.2 ?_⟩
    rwa [hfault] at hf
  have hempty : c.inputBuffer_.readable = [] := by
    have hall : (buf.retrieve buf.readableBytes).readable = [] := by
      rw [ValidBuffer.readable_retrieve, ValidBuffer.readableBytes_eq, List.drop_length]
    exact hall
  rw [hacts]
  refine ⟨hsend.shutdown, (hshut.send _ _).shutdown hsend, ?_, ?_, ?_, ?_⟩
  · dsimp only
    rw [input_shutdown, input_send, hempty]
  · dsimp only
    rw [sent_shutdown]
    by_cases hstate : s.conn.state_ = .kConnected
    · obtain ⟨io, hwent, _, hio⟩ := went_send (c := c) hstate buf.readable result
      have hconn : s.conn.connected = true := decide_eq_true hstate
      rw [sent_went hwent, hio, hsentc, h.sent_eq, h.fresh hstate, hconn]
      rfl
    · have hconn : s.conn.connected = false := decide_eq_false hstate
      have hkept : c.send buf.readable result = c := if_neg hstate
      rw [hkept, hsentc, h.sent_eq, hconn, answer_append_false]
  · intro hstate
    -- `shutdown` has left `kConnected`
    dsimp only at hstate
    rw [state_shutdown] at hstate
    split at hstate
    · cases hstate
    · rename_i hne
      exact absurd hstate hne
  · intro m hm
    by_cases hstate : s.conn.state_ = .kConnected
    · rw [h.fresh hstate] at hm
      exact absurd hm List.not_mem_nil
    · have hconn : s.conn.connected = false := decide_eq_false hstate
      cases hms : s.messages with
      | nil =>
        rw [hms] at hm
        exact absurd hm List.not_mem_nil
      | cons first rest =>
        have hlater := h.later
        rw [hms, List.tail_cons] at hlater
        rw [hms, List.cons_append, List.tail_cons, hconn] at hm
        obtain hm | hm := List.mem_append.mp hm
        · exact hlater m hm
        · rw [List.mem_singleton.mp hm]

/-- `handleRead` fails, finds the end of the stream, or passes a message on. -/
theorem Echoing.handleRead {s : Session} (h : Echoing s) {a : Answers}
    (hallows : CallbackAllowed s (.read, a)) :
    Echoing ⟨s.conn.handleRead a.readv (outcomes s.conn a).atRead,
      s.messages ++ received s.conn a⟩ := by
  rw [CallbackAllowed] at hallows
  rw [TcpConnection.handleRead, outcomes, received]
  -- what `readFd` leaves in the buffer if it stores nothing
  have hkept : ¬ 0 < (s.conn.inputBuffer_.readFd a.readv).2.1 →
      (s.conn.inputBuffer_.readFd a.readv).1.readable = [] := by
    intro hn
    rw [readable_readFd_of_not_pos hn, h.consumed]
  generalize s.conn.inputBuffer_.readFd a.readv = r at hallows hkept ⊢
  obtain ⟨buf, n, errno⟩ := r
  dsimp only at hallows hkept ⊢
  by_cases hpos : 0 < n
  · simp only [if_pos hpos]
    exact h.message hallows
  · simp only [if_neg hpos, List.append_nil]
    have hread : Echoing ⟨{ s.conn with inputBuffer_ := buf }, s.messages⟩ :=
      ⟨inv_input h.out buf, ⟨h.shut.once, h.shut.connected, h.shut.drained⟩, hkept hpos,
        h.sent_eq, h.fresh, h.later⟩
    split
    · exact hread.handleClose
    · exact hread.handleError

theorem Echoing.callback {s : Session} (h : Echoing s) {cb : Callback × Answers}
    (hallows : CallbackAllowed s cb) : ∃ s', callback s cb = some s' ∧ Echoing s' := by
  refine ⟨_, if_neg (by rw [h.out.sound.alive]; decide), ?_⟩
  obtain ⟨cb, a⟩ := cb
  cases cb with
  | close =>
    rw [if_neg nofun, List.append_nil]
    exact h.handleClose
  | error =>
    rw [if_neg nofun, List.append_nil]
    exact h.handleError
  | read =>
    rw [if_pos rfl]
    exact h.handleRead hallows
  | write =>
    rw [if_neg nofun, List.append_nil]
    exact h.handleWrite hallows

theorem Echoing.step {s : Session} (h : Echoing s) {e : Ready} (hallows : Allowed s e) :
    ∃ s', step s e = some s' ∧ Echoing s' :=
  run_total (fun _ _ hs hcb => hs.callback hcb) (h.setRevents e.revents) hallows

/-! ## The main result -/

/-- What the peer of an echo server gets. -/
structure EchoesOnce (s : Session) : Prop where
  /-- The first message is answered, and no message after it finds the connection connected. -/
  sent_eq : sent s.conn.trace = answer s.messages
  later : ∀ m ∈ s.messages.tail, m.1 = false
  /-- What the kernel takes is a part of the answer from its start. -/
  ordered : accepted s.conn.trace <+: answer s.messages
  /-- The write side is shut down at most once, and unless a write has failed the kernel has
  the whole answer by then. -/
  shut_once : shutdowns s.conn.trace ≤ 1
  complete : faulted s.conn.trace = false → 0 < shutdowns s.conn.trace →
    accepted s.conn.trace = answer s.messages
  /-- After the answer, the write side is shut down as soon as the kernel has all of it. -/
  prompt : s.conn.state_ = .kDisconnecting → faulted s.conn.trace = false →
    accepted s.conn.trace = answer s.messages → shutdowns s.conn.trace = 1
  consumed : s.conn.inputBuffer_.readable = []

theorem Echoing.echoesOnce {s : Session} (h : Echoing s) : EchoesOnce s where
  sent_eq := h.sent_eq
  later := h.later
  ordered := by
    rw [← h.sent_eq]
    exact h.out.ordered
  shut_once := by
    obtain hzero | ⟨hone, _⟩ := h.shut.once
    · exact hzero.trans_le (Nat.zero_le 1)
    · exact Nat.le_of_eq hone
  complete hf hshut := by
    obtain hzero | ⟨_, hempty⟩ := h.shut.once
    · exact absurd hzero (Nat.ne_of_gt hshut)
    · have hstream := h.out.stream hf
      rwa [hempty, List.append_nil, h.sent_eq] at hstream
  prompt hstate hf hall := by
    refine h.shut.drained hstate ?_
    have hstream := h.out.stream hf
    rw [hall, h.sent_eq] at hstream
    exact List.append_right_eq_self.mp hstream
  consumed := h.consumed

/-- **An echo server answers once.** Whatever the poller reports for an established connection
of `EchoServer`, in whatever order, every callback goes through against a kernel that keeps
its contract, and the peer gets back the bytes of the first message: in order, complete before
the write side is shut down unless a write has failed, and nothing else. -/
theorem echoes_once (this : Ptr) (sockfd : Int) (writeComplete highWater : Bool)
    (es : List Ready)
    (hallows : Guarded step Allowed (start this sockfd writeComplete highWater) es) :
    ∃ s, run step (start this sockfd writeComplete highWater) es = some s ∧ EchoesOnce s := by
  obtain ⟨s, hrun, hs⟩ := run_total (fun _ _ h he => h.step he)
    (echoing_start this sockfd writeComplete highWater) hallows
  exact ⟨s, hrun, hs.echoesOnce⟩

/-- A message that is answered in two writes, one that comes too late, and the end of the
stream. -/
def twoMessages : List Ready :=
  let ready (revents : Mask) (readv : Readv) (reply write : WriteResult) : Ready :=
    ⟨revents, true, readv, reply, write⟩
  [ready EPOLLIN (.stored [104, 105]) (.wrote 1) (.failed .EWOULDBLOCK),
    ready (EPOLLIN ||| EPOLLOUT) (.stored [33]) (.wrote 0) (.wrote 1),
    ready EPOLLIN (.stored []) (.wrote 0) (.wrote 0)]

theorem echoes_once_twoMessages :
    ∃ s, run step (start 7 7 true true) twoMessages = some s ∧ EchoesOnce s :=
  echoes_once 7 7 true true twoMessages (by decide +kernel)

end CppInOne.Mymuduo.EchoServer
