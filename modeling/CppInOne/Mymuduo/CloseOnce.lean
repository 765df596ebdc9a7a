import CppInOne.Lib.Trace
import CppInOne.Lib.Transition
import CppInOne.Mymuduo.TcpConnection

/-!
# Closing a connection

`handleEventWithGuard` invokes the read callback for every event, also for a hang-up that
has already invoked the close callback. When the read then finds the end of the stream the
connection is closed a second time, and the poller answers the second `disableAll` by
adding the channel again. This file proves that nothing else closes a connection twice,
except a `shutdown` of another thread that overwrites `kDisconnceted`.
-/

namespace CppInOne.Mymuduo.CloseOnce
open Transition Trace TcpConnection

/-- At most one `handleClose`, one `connectionCallback_` with `connected()` false and one
`closeCallback_`; after `handleClose` the channel is not added to epoll. -/
def Once (pre : List Event) : Event → Prop
  | .handleClose _ => ∀ n, .handleClose n ∉ pre
  | .connectionCallback false => .connectionCallback false ∉ pre
  | .closeCallback => .closeCallback ∉ pre
  | .epollCtl .ADD _ _ => ∀ n, .handleClose n ∉ pre
  | _ => True

/-! ## Runs -/

/-- A connection, with the number of threads that are in `shutdown` between the test of
`state_` and the store. -/
structure State where
  conn : TcpConnection
  storing : Nat

inductive Action where
  /-- The poller reports `revents`, and the loop handles them. -/
  | event (revents : Mask) (alive : Bool) (o : Outcomes)
  /-- User code on the loop thread, outside the callbacks of this connection. -/
  | user (act : UserAct)
  /-- A functor from the queue of the loop. -/
  | sendInLoop (data : Bytes) (result : WriteResult)
  | shutdownInLoop
  | connectDestroyed
  /-- `shutdown` on another thread. -/
  | shutdownTest
  | shutdownStore
  deriving DecidableEq, Repr

/-- `revents` is nonzero and made of bits the channel is registered for, `EPOLLHUP` and
`EPOLLERR`. -/
def Reportable (c : TcpConnection) (revents : Mask) : Prop :=
  match c.poller.interest c.channel_.fd_ with
  | some (mask, _) => revents ≠ 0 ∧ revents &&& ~~~(mask ||| EPOLLHUP ||| EPOLLERR) = 0
  | none => False

instance (c : TcpConnection) (revents : Mask) : Decidable (Reportable c revents) := by
  unfold Reportable
  cases c.poller.interest c.channel_.fd_ <;> infer_instance

def step (s : State) (a : Action) : Option State :=
  if s.conn.poller.exited then none
  else
    match a with
    | .event revents alive o =>
      if Reportable s.conn revents then
        some { s with conn := s.conn.handleEvent revents alive o }
      else none
    | .user act => some { s with conn := s.conn.user act }
    | .sendInLoop data result => some { s with conn := s.conn.sendInLoop data result }
    | .shutdownInLoop => some { s with conn := s.conn.shutdownInLoop }
    | .connectDestroyed => some { s with conn := s.conn.connectDestroyed }
    | .shutdownTest =>
      some (if s.conn.state_ = .kConnected then { s with storing := s.storing + 1 } else s)
    | .shutdownStore =>
      match s.storing with
      | 0 => none
      | n + 1 => some { conn := s.conn.setState .kDisconnecting, storing := n }

/-- The steps as a relation, to take a run apart by its actions. -/
inductive Step (s : State) : Action → State → Prop
  | event {revents : Mask} (alive : Bool) (o : Outcomes) (h : Reportable s.conn revents) :
    Step s (.event revents alive o) { s with conn := s.conn.handleEvent revents alive o }
  | user (act : UserAct) : Step s (.user act) { s with conn := s.conn.user act }
  | sendInLoop (data : Bytes) (result : WriteResult) :
    Step s (.sendInLoop data result) { s with conn := s.conn.sendInLoop data result }
  | shutdownInLoop : Step s .shutdownInLoop { s with conn := s.conn.shutdownInLoop }
  | connectDestroyed : Step s .connectDestroyed { s with conn := s.conn.connectDestroyed }
  | shutdownTest : Step s .shutdownTest
    (if s.conn.state_ = .kConnected then { s with storing := s.storing + 1 } else s)
  | shutdownStore {n : Nat} (h : s.storing = n + 1) :
    Step s .shutdownStore { conn := s.conn.setState .kDisconnecting, storing := n }

theorem step_cases {s s' : State} {a : Action} (hs : step s a = some s') : Step s a s' := by
  obtain ⟨-, hs⟩ := Option.ite_none_left_eq_some.mp hs
  cases a with
  | event revents alive o =>
    obtain ⟨hr, hs⟩ := Option.ite_none_right_eq_some.mp hs
    cases hs
    exact .event alive o hr
  | user act =>
    cases hs
    exact .user act
  | sendInLoop data result =>
    cases hs
    exact .sendInLoop data result
  | shutdownInLoop =>
    cases hs
    exact .shutdownInLoop
  | connectDestroyed =>
    cases hs
    exact .connectDestroyed
  | shutdownTest =>
    cases hs
    exact .shutdownTest
  | shutdownStore =>
    cases hstoring : s.storing with
    | zero => simp [hstoring] at hs
    | succ n =>
      simp only [hstoring, Option.some.injEq] at hs
      subst hs
      exact .shutdownStore hstoring

def start (this : Ptr) (sockfd : Int) (writeComplete highWater : Bool) : State where
  conn := established this sockfd writeComplete highWater
  storing := 0

/-- The condition on a step: no hang-up without `EPOLLIN` whose read finds the end of the
stream, and no store of `kDisconnecting` over `kDisconnceted`. -/
def ClosesOnce (s : State) : Action → Prop
  | .event revents alive o =>
    (s.conn.channel_.tied_ = true → alive = true) →
      revents &&& EPOLLHUP ≠ 0 → revents &&& EPOLLIN = 0 → o.readv ≠ .stored []
  | .shutdownStore => s.conn.state_ ≠ .kDisconnceted
  | _ => True

instance (s : State) : ∀ a, Decidable (ClosesOnce s a)
  | .event _ _ _ => inferInstanceAs (Decidable ((_ = true → _ = true) → _ ≠ _ → _ = _ → _ ≠ _))
  | .shutdownStore => inferInstanceAs (Decidable (_ ≠ _))
  | .user _ => .isTrue trivial
  | .sendInLoop _ _ => .isTrue trivial
  | .shutdownInLoop => .isTrue trivial
  | .connectDestroyed => .isTrue trivial
  | .shutdownTest => .isTrue trivial

/-! ## Before and after closing -/

/-- The events that closing a connection produces. -/
def closing : Event → Bool
  | .handleClose _ => true
  | .connectionCallback false => true
  | .closeCallback => true
  | _ => false

/-- The connection has not been closed. -/
structure Open (c : TcpConnection) : Prop where
  sound : c.Sound
  trace : ∀ e ∈ c.trace, closing e = false

/-- The connection has been closed, and the kernel does not watch it any more. -/
structure Over (c : TcpConnection) : Prop where
  sound : c.Sound
  once : Justified Once c.trace
  state : c.state_ = .kDisconnceted
  unwatched : c.channel_.index_ ≠ .kAdded
  idle : c.channel_.isWriting = false

theorem not_mem_of_open {pre : List Event} (hpre : ∀ e ∈ pre, closing e = false) {e : Event}
    (he : closing e = true) : e ∉ pre := by
  intro hmem
  rw [hpre e hmem] at he
  cases he

theorem once_of_open {pre : List Event} (hpre : ∀ e ∈ pre, closing e = false) (e : Event) :
    Once pre e := by
  cases e with
  | handleClose n => exact fun m => not_mem_of_open hpre rfl
  | closeCallback => exact not_mem_of_open hpre rfl
  | connectionCallback connected =>
    cases connected with
    | false => exact not_mem_of_open hpre rfl
    | true => trivial
  | epollCtl op fd ok =>
    cases op with
    | ADD => exact fun m => not_mem_of_open hpre rfl
    | MOD => trivial
    | DEL => trivial
  | _ => trivial

theorem Open.once {c : TcpConnection} (h : Open c) : Justified Once c.trace := by
  intro pre e post htrace
  refine once_of_open (fun e' he' => h.trace e' ?_) e
  rw [htrace]
  exact List.mem_append_left _ he'

/-- Events that do not close keep a connection open. -/
theorem Open.went {c c' : TcpConnection} {io : List Event} (h : Open c) (hsound : c'.Sound)
    (hio : ∀ e ∈ io, closing e = false) (hwent : Went c io c') : Open c' := by
  refine ⟨hsound, fun e he => ?_⟩
  obtain he | he | hq := hwent.mem he
  · exact h.trace e he
  · exact hio e he
  · cases e <;> simp_all [Event.quiet, closing]

theorem Open.emit {c : TcpConnection} (h : Open c) {e : Event} (he : closing e = false) :
    Open (c.emit e) :=
  h.went (h.sound.emit e) (fun _ hmem => List.mem_singleton.mp hmem ▸ he) (went_emit c e)

theorem Open.sendInLoop {c : TcpConnection} (h : Open c) (data : Bytes) (result : WriteResult) :
    Open (c.sendInLoop data result) := by
  have hsound := h.sound.sendInLoop data result
  by_cases hstate : c.state_ = .kDisconnceted
  · rw [sendInLoop_giveUp hstate]
    exact h
  · by_cases hdirect : c.writesDirectly
    · exact h.went hsound (by simp [closing]) (sendInLoop_direct hstate hdirect data result).went
    · exact h.went hsound (by simp) (sendInLoop_queued hstate hdirect data result).went

theorem Open.shutdownInLoop {c : TcpConnection} (h : Open c) : Open c.shutdownInLoop := by
  rw [TcpConnection.shutdownInLoop]
  split
  · exact h.emit rfl
  · exact h

theorem Open.setState {c : TcpConnection} (h : Open c) (state : StateE) :
    Open (c.setState state) :=
  ⟨h.sound.setState state, h.trace⟩

theorem Open.user {c : TcpConnection} (h : Open c) (act : UserAct) : Open (c.user act) := by
  cases act with
  | send buf result =>
    show Open (c.send buf result)
    rw [TcpConnection.send]
    split
    · exact (h.emit rfl).sendInLoop _ _
    · exact h
  | shutdown =>
    show Open c.shutdown
    rw [TcpConnection.shutdown]
    split
    · exact (h.setState _).shutdownInLoop
    · exact h
  | retrieve len => exact ⟨⟨h.sound.synced, h.sound.alive⟩, h.trace⟩

theorem Open.users {c : TcpConnection} (h : Open c) (acts : List UserAct) :
    Open (acts.foldl TcpConnection.user c) := by
  induction acts generalizing c with
  | nil => exact h
  | cons act acts ih => exact ih (h.user act)

theorem Open.handleWrite {c : TcpConnection} (h : Open c) (result : WriteResult) :
    Open (c.handleWrite result) := by
  have hdrain : Open (c.handleWriteDrain result).1 := by
    by_cases hw : c.channel_.isWriting = true
    · exact h.went (h.sound.handleWriteDrain result) (by simp [closing])
        (handleWriteDrain_spec hw result).went
    · rw [handleWriteDrain_idle (by simpa using hw)]
      exact h
  rw [TcpConnection.handleWrite]
  dsimp only
  split
  · exact hdrain.shutdownInLoop
  · exact hdrain

/-- The only step that closes: the channel is deleted from epoll, not added. -/
theorem Open.handleClose {c : TcpConnection} (h : Open c) (hadded : c.channel_.index_ = .kAdded)
    (acts : List UserAct) : Over (c.handleClose acts) := by
  obtain ⟨hstate, _, hidle, hindex, htrace⟩ := h.sound.handleClose_spec acts
  have hop : Index.updateOp c.channel_.index_ kNoneEvent = .DEL := by rw [hadded]; rfl
  refine ⟨h.sound.handleClose acts, ?_, hstate, by rw [hindex, hadded]; decide, hidle⟩
  have hfalse : Event.connectionCallback false ∉ c.trace := not_mem_of_open h.trace rfl
  have hcallback : Event.closeCallback ∉ c.trace := not_mem_of_open h.trace rfl
  have hclose := h.once.concat
    (once_of_open h.trace (.handleClose c.outputBuffer_.readableBytes))
  have hdelete := hclose.concat (show Once _ (.epollCtl .DEL c.channel_.fd_ true) from trivial)
  have hdown := hdelete.concat (show Once _ (.connectionCallback false) by
    simpa [Once] using hfalse)
  have hremove := hdown.concat (show Once _ .closeCallback by simpa [Once] using hcallback)
  rw [htrace, hop]
  simpa [List.append_assoc] using hremove

/-- `remove` at most deletes the channel from epoll. -/
theorem trace_remove {c : TcpConnection} (h : c.Sound) :
    ∃ s, (c.onChannel Channel.remove).trace = c.trace ++ s ∧
      ∀ e ∈ s, e = .epollCtl .DEL c.channel_.fd_ true := by
  refine ⟨_, h.synced.remove.trace, ?_⟩
  intro e he
  obtain ⟨op, hop, rfl⟩ := List.mem_map.mp he
  split at hop
  · rw [List.mem_singleton.mp hop]
  · cases hop

theorem channel_remove {c : TcpConnection} (h : c.Sound) :
    (c.onChannel Channel.remove).channel_ = { c.channel_ with index_ := .kNew } :=
  h.synced.remove.channel

theorem Open.remove {c : TcpConnection} (h : Open c) : Open (c.onChannel Channel.remove) := by
  obtain ⟨s, htrace, hs⟩ := trace_remove h.sound
  refine ⟨h.sound.remove, fun e he => ?_⟩
  rw [htrace] at he
  obtain he | he := List.mem_append.mp he
  · exact h.trace e he
  · rw [hs e he]
    rfl

/-- After `remove` nothing watches a connection that has been closed. -/
theorem over_remove {c : TcpConnection} (hsound : c.Sound) (honce : Justified Once c.trace)
    (hstate : c.state_ = .kDisconnceted) (hidle : c.channel_.isWriting = false) :
    Over (c.onChannel Channel.remove) := by
  obtain ⟨s, htrace, hs⟩ := trace_remove hsound
  have hch := channel_remove hsound
  refine ⟨hsound.remove, ?_, hstate, by rw [hch]; exact nofun, by rw [hch]; exact hidle⟩
  rw [htrace]
  exact honce.append_free fun e he pre => by rw [hs e he]; trivial

/-- `connectDestroyed` ends a connection that is still `kConnected`; in the other states it
only removes the channel. -/
theorem Open.connectDestroyed {c : TcpConnection} (h : Open c) :
    Open c.connectDestroyed ∨ Over c.connectDestroyed := by
  by_cases hstate : c.state_ = .kConnected
  · have hclosing := h.sound.setState .kDisconnceted
    have htrace : ((c.setState .kDisconnceted).onChannel Channel.disableAll).trace = _ :=
      hclosing.trace_setEvents fun _ => kNoneEvent
    have hfalse : Event.connectionCallback false ∉ c.trace := not_mem_of_open h.trace rfl
    have hdisable := h.once.concat (once_of_open h.trace
      (.epollCtl (c.channel_.index_.updateOp kNoneEvent) c.channel_.fd_ true))
    have hdown := hdisable.concat (show Once _ (.connectionCallback false) by
      simpa [Once] using hfalse)
    have hover := over_remove
      (c := ((c.setState .kDisconnceted).onChannel Channel.disableAll).emit
        (.connectionCallback false))
      ((hclosing.setEvents fun _ => kNoneEvent).emit _)
      (by rw [trace_emit, htrace]; exact hdown) rfl (isWriting_disableAll _)
    right
    rw [TcpConnection.connectDestroyed, if_pos hstate]
    exact hover
  · left
    rw [TcpConnection.connectDestroyed, if_neg hstate]
    exact h.remove

/-! ### After closing -/

theorem Over.emit {c : TcpConnection} (h : Over c) {e : Event} (he : ∀ pre, Once pre e) :
    Over (c.emit e) :=
  ⟨h.sound.emit e, h.once.concat (he _), h.state, h.unwatched, h.idle⟩

theorem Over.users {c : TcpConnection} (h : Over c) (acts : List UserAct) :
    Over (acts.foldl TcpConnection.user c) := by
  obtain ⟨input, hacts⟩ := users_disconnected h.state acts
  rw [hacts]
  exact ⟨⟨h.sound.synced, h.sound.alive⟩, h.once, h.state, h.unwatched, h.idle⟩

theorem Over.shutdownInLoop {c : TcpConnection} (h : Over c) : Over c.shutdownInLoop := by
  rw [TcpConnection.shutdownInLoop]
  split
  · exact h.emit fun _ => trivial
  · exact h

theorem Over.handleWrite {c : TcpConnection} (h : Over c) (result : WriteResult) :
    Over (c.handleWrite result) := by
  rw [handleWrite_idle h.idle]
  exact h

/-- Unless the read finds the end of the stream, it changes nothing. -/
theorem Over.handleRead {c : TcpConnection} (h : Over c) {readv : Readv}
    (hread : readv ≠ .stored []) (acts : List UserAct) : Over (c.handleRead readv acts) := by
  have hn : (c.inputBuffer_.readFd readv).2.1 ≠ 0 := mt ValidBuffer.readFd_eq_zero.mp hread
  have hinput : Over { c with inputBuffer_ := (c.inputBuffer_.readFd readv).1 } :=
    ⟨⟨h.sound.synced, h.sound.alive⟩, h.once, h.state, h.unwatched, h.idle⟩
  rw [TcpConnection.handleRead]
  dsimp only
  split
  · exact (hinput.emit (show ∀ pre, Once pre .messageCallback from fun _ => trivial)).users acts
  · exact hinput.emit fun _ => trivial

theorem Over.connectDestroyed {c : TcpConnection} (h : Over c) : Over c.connectDestroyed := by
  have hne : c.state_ ≠ .kConnected := by rw [h.state]; decide
  rw [TcpConnection.connectDestroyed, if_neg hne]
  exact over_remove h.sound h.once h.state h.idle

/-! ### One event -/

/-- Between two callbacks of one event, before the read callback: either nothing has closed
the connection, or the read will not close it again. -/
def BeforeRead (o : Outcomes) (c : TcpConnection) : Prop :=
  (Open c ∧ c.channel_.index_ = .kAdded) ∨ (Over c ∧ o.readv ≠ .stored [])

theorem BeforeRead.handleError {o : Outcomes} {c : TcpConnection} (h : BeforeRead o c) :
    BeforeRead o c.handleError := by
  obtain ⟨h, hadded⟩ | ⟨h, hread⟩ := h
  · exact Or.inl ⟨h.emit rfl, hadded⟩
  · exact Or.inr ⟨h.emit fun _ => trivial, hread⟩

theorem BeforeRead.handleRead {o : Outcomes} {c : TcpConnection} (h : BeforeRead o c) :
    Open (c.handleRead o.readv o.atRead) ∨ Over (c.handleRead o.readv o.atRead) := by
  obtain ⟨h, hadded⟩ | ⟨h, hread⟩ := h
  · have hinput : Open { c with inputBuffer_ := (c.inputBuffer_.readFd o.readv).1 } :=
      ⟨⟨h.sound.synced, h.sound.alive⟩, h.trace⟩
    rw [TcpConnection.handleRead]
    dsimp only
    split
    · exact Or.inl ((hinput.emit rfl).users o.atRead)
    · split
      · exact Or.inr (hinput.handleClose hadded o.atRead)
      · exact Or.inl (hinput.emit rfl)
  · exact Or.inr (h.handleRead hread o.atRead)

theorem handleWrite_open_or_over {c : TcpConnection} (h : Open c ∨ Over c)
    (result : WriteResult) : Open (c.handleWrite result) ∨ Over (c.handleWrite result) :=
  h.imp (·.handleWrite result) (·.handleWrite result)

/-- The callbacks of one event, in the order of `handleEventWithGuard`. -/
theorem Open.handleEventWithGuard {c : TcpConnection} (h : Open c)
    (hadded : c.channel_.index_ = .kAdded) (o : Outcomes)
    (honce : c.channel_.revents_ &&& EPOLLHUP ≠ 0 → c.channel_.revents_ &&& EPOLLIN = 0 →
      o.readv ≠ .stored []) :
    Open (c.channel_.handleEventWithGuard.foldl (invoke o) c) ∨
      Over (c.channel_.handleEventWithGuard.foldl (invoke o) c) := by
  rw [Channel.handleEventWithGuard, List.foldl_append, List.foldl_append, List.foldl_append]
  -- one callback after the other; what each of them leaves behind is all the next one needs
  have hclose : BeforeRead o (List.foldl (invoke o) c
      (if c.channel_.revents_ &&& EPOLLHUP ≠ 0 ∧ ¬ c.channel_.revents_ &&& EPOLLIN ≠ 0 ∧
        c.channel_.closeCallback_ then [.close] else [])) := by
    split
    · rename_i hup
      exact Or.inr ⟨h.handleClose hadded o.atClose, honce hup.1 (not_not.mp hup.2.1)⟩
    · exact Or.inl ⟨h, hadded⟩
  generalize List.foldl (invoke o) c _ = c₁ at hclose ⊢
  have herror : BeforeRead o (List.foldl (invoke o) c₁
      (if c.channel_.revents_ &&& EPOLLERR ≠ 0 ∧ c.channel_.errorCallback_ then [.error]
        else [])) := by
    split
    · exact hclose.handleError
    · exact hclose
  generalize List.foldl (invoke o) c₁ _ = c₂ at herror ⊢
  have hread : Open (List.foldl (invoke o) c₂
      (if c.channel_.revents_ ≠ 0 ∧ ¬ EPOLLPRI &&& EPOLLIN ≠ 0 ∧ c.channel_.readCallback_ then
        [.read] else [])) ∨ Over (List.foldl (invoke o) c₂
      (if c.channel_.revents_ ≠ 0 ∧ ¬ EPOLLPRI &&& EPOLLIN ≠ 0 ∧ c.channel_.readCallback_ then
        [.read] else [])) := by
    split
    · exact herror.handleRead
    · exact herror.imp (·.1) (·.1)
  generalize List.foldl (invoke o) c₂ _ = c₃ at hread ⊢
  split
  · exact handleWrite_open_or_over hread o.write
  · exact hread

theorem Open.handleEvent {c : TcpConnection} (h : Open c) (hadded : c.channel_.index_ = .kAdded)
    (revents : Mask) (alive : Bool) (o : Outcomes)
    (honce : (c.channel_.tied_ = true → alive = true) →
      revents &&& EPOLLHUP ≠ 0 → revents &&& EPOLLIN = 0 → o.readv ≠ .stored []) :
    Open (c.handleEvent revents alive o) ∨ Over (c.handleEvent revents alive o) := by
  have hset : Open { c with channel_ := { c.channel_ with revents_ := revents } } :=
    ⟨⟨⟨h.sound.synced.interest, h.sound.synced.channels⟩, h.sound.alive⟩, h.trace⟩
  rw [TcpConnection.handleEvent]
  dsimp only
  rw [Channel.handleEvent]
  split
  · split
    · rename_i halive
      exact hset.handleEventWithGuard hadded o (honce fun _ => halive)
    · exact Or.inl hset
  · rename_i htied
    exact hset.handleEventWithGuard hadded o (honce fun ht => absurd ht htied)

/-- Events are reported only while the channel is in the interest list. -/
theorem added_of_reportable {c : TcpConnection} (h : c.Sound) {revents : Mask}
    (hr : Reportable c revents) : c.channel_.index_ = .kAdded := by
  by_contra hne
  have hi := h.synced.interest
  rw [if_neg hne] at hi
  simp [Reportable, hi] at hr

/-! ## Closing at most once -/

def Inv (s : State) : Prop := Open s.conn ∨ Over s.conn

theorem inv_start (this : Ptr) (sockfd : Int) (writeComplete highWater : Bool) :
    Inv (start this sockfd writeComplete highWater) := by
  refine Or.inl ⟨sound_established this sockfd writeComplete highWater, ?_⟩
  show ∀ e ∈ (established this sockfd writeComplete highWater).trace, closing e = false
  rw [trace_established]
  simp [closing]

theorem Inv.step {s s' : State} {a : Action} (h : Inv s) (hcond : ClosesOnce s a)
    (hstep : step s a = some s') : Inv s' := by
  have hsound : s.conn.Sound := h.elim (·.sound) (·.sound)
  cases step_cases hstep with
  | event alive o hr =>
    have hadded := added_of_reportable hsound hr
    obtain h | h := h
    · exact h.handleEvent hadded _ alive o hcond
    · -- a closed connection gets no events any more
      exact absurd hadded h.unwatched
  | user act =>
    obtain h | h := h
    · exact Or.inl (h.user act)
    · exact Or.inr (h.users [act])
  | sendInLoop data result =>
    obtain h | h := h
    · exact Or.inl (h.sendInLoop data result)
    · right
      simpa only [sendInLoop_giveUp h.state] using h
  | shutdownInLoop => exact h.imp (·.shutdownInLoop) (·.shutdownInLoop)
  | connectDestroyed =>
    obtain h | h := h
    · exact h.connectDestroyed
    · exact Or.inr h.connectDestroyed
  | shutdownTest =>
    rw [Inv]
    split <;> exact h
  | shutdownStore =>
    obtain h | h := h
    · exact Or.inl (h.setState _)
    · -- the store over `kDisconnceted` that the condition excludes
      exact absurd h.state hcond

/-- **A connection is closed at most once** in every run without a hang-up that lacks
`EPOLLIN` and whose read finds the end of the stream, and without a store of
`kDisconnecting` over `kDisconnceted`. -/
theorem closes_at_most_once (this : Ptr) (sockfd : Int) (writeComplete highWater : Bool)
    (as : List Action) (s : State)
    (hcond : Guarded step ClosesOnce (start this sockfd writeComplete highWater) as)
    (hrun : run step (start this sockfd writeComplete highWater) as = some s) :
    Justified Once s.conn.trace := by
  have h : Inv s := run_invariant (fun _ _ _ hi hc hs => Inv.step hi hc hs)
    (inv_start this sockfd writeComplete highWater) hcond hrun
  exact h.elim (·.once) (·.once)

/-- A read that finds the end of the stream closes a closed connection again; the write
callback does not matter any more. -/
theorem second_close {c : TcpConnection} (h : c.Sound) {n : Nat}
    (hn : .handleClose n ∈ c.trace) {o : Outcomes} (hend : o.readv = .stored []) :
    ¬ Justified Once (invoke o c .read).trace ∧
      ¬ Justified Once (invoke o (invoke o c .read) .write).trace := by
  obtain ⟨input, heq⟩ := c.handleRead_end o.atRead
  have hinput : Sound { c with inputBuffer_ := input } := ⟨h.synced, h.alive⟩
  have hclosed := hinput.handleClose_spec o.atRead
  have hread : invoke o c .read =
      TcpConnection.handleClose { c with inputBuffer_ := input } o.atRead := by
    rw [invoke, hend, heq]
  have hwrite : invoke o (invoke o c .read) .write = invoke o c .read := by
    rw [hread]
    exact handleWrite_idle hclosed.idle o.write
  rw [hwrite, and_self, hread, hclosed.trace_eq]
  intro honce
  exact honce c.trace _ _ rfl n hn

/-- The condition on events is exact: a hang-up without `EPOLLIN` whose read finds the end of
the stream closes the connection in the close callback and again in the read callback. -/
theorem not_once_of_hangup_at_end {c : TcpConnection} (h : c.Sound)
    (hclose : c.channel_.closeCallback_ = true) (hread : c.channel_.readCallback_ = true)
    (hup : c.channel_.revents_ &&& EPOLLHUP ≠ 0) (hin : c.channel_.revents_ &&& EPOLLIN = 0)
    {o : Outcomes} (hend : o.readv = .stored []) :
    ¬ Justified Once (c.channel_.handleEventWithGuard.foldl (invoke o) c).trace := by
  have hne : c.channel_.revents_ ≠ 0 := by
    intro hzero
    exact hup (by rw [hzero]; decide)
  have hsound := h.handleClose o.atClose
  have hfirst : .handleClose c.outputBuffer_.readableBytes ∈ (c.handleClose o.atClose).trace := by
    rw [(h.handleClose_spec o.atClose).trace_eq]
    simp
  rw [Channel.handleEventWithGuard, if_pos ⟨hup, not_not.mpr hin, hclose⟩,
    if_pos (show _ ∧ _ ∧ _ from ⟨hne, by decide, hread⟩), List.foldl_append,
    List.foldl_append, List.foldl_append]
  simp only [List.foldl_cons, List.foldl_nil]
  split
  · have hsecond := second_close (hsound.emit .handleError) (List.mem_append_left _ hfirst) hend
    split
    · exact hsecond.2
    · exact hsecond.1
  · have hsecond := second_close hsound hfirst hend
    split
    · exact hsecond.2
    · exact hsecond.1

/-- An event with data that also hangs up, a send and a functor after the close, and the
removal from the server. -/
def hangupRun : List Action :=
  [.event (EPOLLIN ||| EPOLLHUP) true ⟨.stored [1, 2], .wrote 0, [], [.send [3] (.wrote 0)]⟩,
    .event EPOLLHUP true ⟨.stored [4], .wrote 0, [.shutdown], [.send [5] (.wrote 1)]⟩,
    .sendInLoop [6] (.wrote 1), .connectDestroyed]

theorem closes_at_most_once_hangup :
    ∃ s, run step (start 7 7 true true) hangupRun = some s ∧
      Justified Once s.conn.trace := by
  have hsome : (run step (start 7 7 true true) hangupRun).isSome = true := by
    decide +kernel
  obtain ⟨s, hs⟩ := Option.isSome_iff_exists.mp hsome
  exact ⟨s, hs, closes_at_most_once 7 7 true true hangupRun s (by decide +kernel) hs⟩

/-- A hang-up without `EPOLLIN` whose read finds the end of the stream. -/
def hangupAtEnd : Action := .event EPOLLHUP true ⟨.stored [], .wrote 0, [], []⟩

theorem trace_hangupAtEnd :
    (run step (start 7 7 false false) [hangupAtEnd]).map (·.conn.trace) =
      some [.epollCtl .ADD 7 true, .connectionCallback true,
        .handleClose 0, .epollCtl .DEL 7 true, .connectionCallback false, .closeCallback,
        .handleClose 0, .epollCtl .ADD 7 true, .connectionCallback false, .closeCallback] := by
  decide +kernel

/-- One such event closes the connection twice and adds the channel again. -/
theorem hangupAtEnd_closes_twice :
    ∃ s, run step (start 7 7 false false) [hangupAtEnd] = some s ∧
      s.conn.trace.count (.handleClose 0) = 2 ∧
      s.conn.trace.count (.connectionCallback false) = 2 ∧
      s.conn.trace.count .closeCallback = 2 ∧ ¬ Justified Once s.conn.trace := by
  obtain ⟨s, hs, htrace⟩ := Option.map_eq_some_iff.mp trace_hangupAtEnd
  refine ⟨s, hs, by rw [htrace]; decide, by rw [htrace]; decide, by rw [htrace]; decide, ?_⟩
  intro honce
  have hsecond := honce [.epollCtl .ADD 7 true, .connectionCallback true, .handleClose 0,
    .epollCtl .DEL 7 true, .connectionCallback false, .closeCallback] (.handleClose 0)
    [.epollCtl .ADD 7 true, .connectionCallback false, .closeCallback] htrace
  exact hsecond 0 (by decide)

end CppInOne.Mymuduo.CloseOnce
