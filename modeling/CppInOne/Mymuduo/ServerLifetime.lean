import CppInOne.Mymuduo.ConnectionRegistry

/-!
# The lifetime of a server

The connections of a server call it back through a raw pointer. The destructor joins the
sub-loops, but the base loop lives on, and what it still holds for the server it executes
afterwards. This file proves that a server is not called back after its destructor if the
base loop holds no such work at that moment, and no functor of a connection that `send` or
`shutdown` bound to a raw `this` gives the base loop work of that kind later.

## Main results

- `never_called_back` — no call of a destroyed server
- `lateRemovalRun_calls_back` — a removal that is executed after the destructor
- `revivedRun_calls_back` — a channel that is back in the poller after the destructor
-/

namespace CppInOne.Mymuduo.TcpServer
open Transition Trace

variable {n : Nat} {s s' : State n}

def Functor.isRemoval : Functor n → Bool
  | .removeConnectionInLoop _ => true
  | .connectEstablished _ | .connectDestroyed _ | .sendInLoop _ _ | .shutdownInLoop _
  | .user => false

/-- This event is a call of the server by one of its connections. -/
def Event.callsBack : Event n → Bool
  | .removeConnection _ _ => true
  | .executed _ functor => functor.isRemoval
  | _ => false

/-- The server is called back only before its destructor has finished. -/
def NotCalledBack (pre : List (Event n)) (e : Event n) : Prop :=
  e.callsBack = true → .destructed ∉ pre

/-- The functor is bound to a connection that nobody owns any more. -/
def Functor.Dangling (s : State n) : Functor n → Prop
  | .sendInLoop conn _ | .shutdownInLoop conn => ¬ s.Owned conn
  | .connectEstablished _ | .connectDestroyed _ | .removeConnectionInLoop _ | .user => False

/-- The functor gives the poller a channel that `connectDestroyed` has taken out. -/
def Functor.Revives (s : State n) : Functor n → Prop
  | .sendInLoop conn enables => s.state_ conn ≠ .kDisconnceted ∧ enables = true ∧
    conn ∉ (s.loops conn.loop_).channels_
  | .connectEstablished _ | .connectDestroyed _ | .removeConnectionInLoop _ | .shutdownInLoop _
  | .user => False

instance (s : State n) : ∀ cb : Functor n, Decidable (cb.Dangling s)
  | .sendInLoop conn _ | .shutdownInLoop conn => inferInstanceAs (Decidable (¬ s.Owned conn))
  | .connectEstablished _ | .connectDestroyed _ | .removeConnectionInLoop _ | .user =>
    .isFalse id

instance (s : State n) : ∀ cb : Functor n, Decidable (cb.Revives s)
  | .sendInLoop conn enables => inferInstanceAs (Decidable (s.state_ conn ≠ .kDisconnceted ∧
      enables = true ∧ conn ∉ (s.loops conn.loop_).channels_))
  | .connectEstablished _ | .connectDestroyed _ | .removeConnectionInLoop _ | .shutdownInLoop _
  | .user => .isFalse id

/-- The destructor finishes when the base loop holds no removal, and no event of a connection
that it polled before. The numbers of the connections do not overflow. No loop runs into a
connection that is gone, and no functor brings a channel back to the base loop. -/
def Settled (s : State n) : Action n → Prop
  | .finish => (∀ cb ∈ (s.loops none).queue, cb.isRemoval = false) ∧
    (s.loops none).pc.active = []
  | .accept => s.accepts + 1 < 2 ^ 31
  | .loop l _ => ∀ cb ∈ (s.loops l).pc.functors.head?,
    ¬ cb.Dangling s ∧ (l = none → ¬ cb.Revives s)
  | _ => True

instance (s : State n) : ∀ a, Decidable (Settled s a)
  | .finish => inferInstanceAs (Decidable ((∀ cb ∈ (s.loops none).queue, cb.isRemoval = false) ∧
      (s.loops none).pc.active = []))
  | .accept => inferInstanceAs (Decidable (s.accepts + 1 < 2 ^ 31))
  | .loop l _ => inferInstanceAs (Decidable (∀ cb ∈ (s.loops l).pc.functors.head?,
      ¬ cb.Dangling s ∧ (l = none → ¬ cb.Revives s)))
  | .queueUser _ | .user _ | .destructor | .destroyItem _ | .endBody | .quitLoop | .joinLoop =>
    .isTrue trivial

/-- Whether a functor revives a channel is seen in the state before it is taken. -/
theorem Functor.Revives.of_setPc {cb : Functor n} {l : LoopId n} {pc : LoopPc n}
    (h : cb.Revives (s.setPc l pc)) : cb.Revives s := by
  cases cb with
  | sendInLoop conn enables =>
    refine h.imp_right (And.imp_right fun hnew hold => hnew ?_)
    simp only [State.setPc, State.loops_setLoop]
    split
    · next heq =>
      subst heq
      exact hold
    · exact hold
  | connectEstablished | connectDestroyed | removeConnectionInLoop | shutdownInLoop | user =>
    exact h

/-- A send that revives no channel leaves the poller as it is. -/
theorem State.call_sendInLoop {conn : Conn n} {enables : Bool} (thread : LoopId n)
    (h : ¬ (Functor.sendInLoop conn enables).Revives s) :
    s.call thread (.sendInLoop conn enables) =
      s.emit (.executed thread (.sendInLoop conn enables)) := by
  apply if_pos
  simp only [Functor.Revives, ne_eq] at h
  cases enables with
  | true => tauto
  | false => exact Or.inr (Or.inl rfl)

/-! ## The base loop -/

/-- The loop handles events, and takes its queue out next. -/
def LoopPc.handling : LoopPc n → Bool
  | .dispatch _ | .handleClose _ _ => true
  | .check | .poll | .batch _ | .stopped => false

/-- The destructor comes across the connection, or will if it starts now. -/
def State.Keeps (s : State n) (conn : Conn n) : Prop :=
  match s.life with
  | .alive => ¬ Removed s.trace conn
  | .destroying items => conn ∈ items
  | .quitting _ | .joining _ | .destroyed => False

theorem State.Keeps.of_removed {conn : Conn n} (hlife : s'.life = s.life)
    (hremoved : Removed s'.trace conn → Removed s.trace conn) (h : s.Keeps conn) :
    s'.Keeps conn := by
  unfold State.Keeps at h ⊢
  rw [hlife]
  split
  · next halive =>
    rw [halive] at h
    exact fun hmem => h (hremoved hmem)
  · next items hitems =>
    rw [hitems] at h
    exact h
  all_goals
    rename_i hgone
    rw [hgone] at h
    exact h

/-- A channel on the base loop belongs to a connection that the server still keeps, or whose
`connectDestroyed` comes before the next poll; and a destroyed server has left no work. -/
structure BaseLoop (s : State n) : Prop where
  ahead : ∀ conn, .connectDestroyed conn ∈ (s.loops none).pendingFunctors_ →
    (s.loops none).pc.handling = true
  channel : ∀ conn ∈ (s.loops none).channels_,
    s.Keeps conn ∨ .connectDestroyed conn ∈ (s.loops none).queue
  closed : s.life = .destroyed →
    (∀ cb ∈ (s.loops none).queue, cb.isRemoval = false) ∧ (s.loops none).pc.active = []

namespace BaseLoop

/-- The base loop is left alone. -/
theorem of_eq (h : BaseLoop s) (hk : Known s) (hloop : s'.loops none = s.loops none)
    (hkeeps : ∀ conn, conn.loop_ = none → s.Keeps conn → s'.Keeps conn)
    (hlife : s'.life = .destroyed → s.life = .destroyed) : BaseLoop s' := by
  refine ⟨?_, fun conn hmem => ?_, fun heq => ?_⟩
  · rw [hloop]
    exact h.ahead
  · rw [hloop] at hmem ⊢
    exact (h.channel conn hmem).imp_left (hkeeps conn (hk.channel none conn (Or.inl hmem)).2)
  · rw [hloop]
    exact h.closed (hlife heq)

/-- The other threads leave every loop alone. -/
theorem move (h : BaseLoop s) (hk : Known s) (held : List (Conn n)) (calls : List (Call n))
    (state_ : Conn n → StateE) : BaseLoop { s with held, calls, state_ } :=
  h.of_eq hk rfl (fun _ _ => id) id

/-- Something happens that is no removal. -/
theorem emit (h : BaseLoop s) (hk : Known s) {e : Event n}
    (he : ∀ thread conn, e ≠ .executed thread (.removeConnectionInLoop conn)) :
    BaseLoop (s.emit e) := by
  refine h.of_eq hk rfl (fun conn _ => State.Keeps.of_removed rfl ?_) id
  rintro ⟨thread, hmem⟩
  obtain hmem | hmem := List.mem_append.mp hmem
  · exact ⟨thread, hmem⟩
  · exact absurd (List.mem_singleton.mp hmem).symm (he thread conn)

/-- Another loop changes. -/
theorem setOther (h : BaseLoop s) (hk : Known s) (i : Fin n) (f : Loop n → Loop n) :
    BaseLoop (s.setLoop (some i) f) := by
  refine h.of_eq hk ?_ (fun conn _ hkeeps => hkeeps) id
  simp [State.loops_setLoop]

theorem setPc (h : BaseLoop s) {pc : LoopPc n}
    (hfunctors : pc.functors = (s.loops none).pc.functors)
    (hahead : (s.loops none).pc.handling = true → pc.handling = true)
    (hactive : s.life = .destroyed → pc.active = []) : BaseLoop (s.setPc none pc) := by
  have hloop : (s.setPc none pc).loops none = { s.loops none with pc } := by
    simp [State.setPc, State.loops_setLoop]
  have hqueue : ((s.setPc none pc).loops none).queue = (s.loops none).queue := by
    rw [hloop]
    simp only [Loop.queue, hfunctors]
  refine ⟨fun conn hmem => ?_, fun conn hmem => ?_, fun heq => ⟨?_, ?_⟩⟩
  · rw [hloop] at hmem ⊢
    exact hahead (h.ahead conn hmem)
  · rw [hqueue]
    rw [hloop] at hmem
    exact h.channel conn hmem
  · rw [hqueue]
    exact (h.closed heq).1
  · rw [hloop]
    exact hactive heq

/-- A functor that destroys no connection is queued. -/
theorem queueInLoop (h : BaseLoop s) {cb : Functor n} (hcb : ∀ conn, cb ≠ .connectDestroyed conn)
    (hclosed : s.life = .destroyed → cb.isRemoval = false) :
    BaseLoop (s.queueInLoop none cb) := by
  have hloop : (s.queueInLoop none cb).loops none =
      { s.loops none with pendingFunctors_ := (s.loops none).pendingFunctors_ ++ [cb] } := by
    simp [State.queueInLoop, State.loops_setLoop]
  have hqueue : ((s.queueInLoop none cb).loops none).queue = (s.loops none).queue ++ [cb] := by
    rw [hloop]
    simp [Loop.queue]
  refine ⟨fun conn hmem => ?_, fun conn hmem => ?_, fun heq => ⟨fun f hmem => ?_, ?_⟩⟩
  · rw [hloop] at hmem ⊢
    obtain hmem | hmem := List.mem_append.mp hmem
    · exact h.ahead conn hmem
    · exact absurd (List.mem_singleton.mp hmem).symm (hcb conn)
  · rw [hqueue]
    rw [hloop] at hmem
    exact (h.channel conn hmem).imp_right (List.mem_append_left _)
  · rw [hqueue] at hmem
    obtain hmem | hmem := List.mem_append.mp hmem
    · exact (h.closed heq).1 f hmem
    · obtain rfl := List.mem_singleton.mp hmem
      exact hclosed heq
  · rw [hloop]
    exact (h.closed heq).2

/-- The life of the server goes on. -/
theorem setLife (h : BaseLoop s) (hk : Known s) {life : Life n} (hlife : life ≠ .destroyed)
    (hkeeps : ∀ conn, conn.loop_ = none → .accepted conn ∈ s.trace → s.Keeps conn →
      State.Keeps { s with life } conn) : BaseLoop { s with life } := by
  refine ⟨h.ahead, fun conn hmem => ?_, fun heq => absurd heq hlife⟩
  obtain ⟨hacc, hloop⟩ := hk.channel none conn (Or.inl hmem)
  exact (h.channel conn hmem).imp_left (hkeeps conn hloop hacc)

/-- The removal of a connection of a sub-loop is executed. -/
theorem callRemove (h : BaseLoop s) (hk : Known s) {conn : Conn n} (hloop : conn.loop_ ≠ none) :
    BaseLoop (s.call none (.removeConnectionInLoop conn)) := by
  refine h.of_eq hk ?_ (fun c hc => State.Keeps.of_removed ?_ ?_) ?_
  · show ((s.emit _).removeConnectionInLoop conn).loops none = s.loops none
    unfold State.removeConnectionInLoop
    split
    · rfl
    · simp [State.queueInLoop, State.loops_setLoop, hloop.symm]
  · exact (State.calls_call s none _).life
  · rintro ⟨thread, hmem⟩
    rw [State.trace_call] at hmem
    obtain hmem | hmem := List.mem_append.mp hmem
    · exact ⟨thread, hmem⟩
    · cases List.mem_singleton.mp hmem
      exact absurd hc hloop
  · rw [(State.calls_call s none _).life]
    exact id

/-- A connection of the base loop closes. -/
theorem closeBase (h : BaseLoop s) {conn : Conn n} (hloop : conn.loop_ = none)
    (hpc : (s.loops none).pc.handling = true) (hlife : s.life ≠ .destroyed) :
    BaseLoop (s.removeConnection none conn) := by
  have hcalls := s.calls_removeConnection none conn
  have hnew : (s.removeConnection none conn).loops none = { s.loops none with
      pendingFunctors_ := (s.loops none).pendingFunctors_ ++ [.connectDestroyed conn] } := by
    simp [State.removeConnection, State.runInLoop, State.call, State.run,
      State.removeConnectionInLoop, hlife, State.queueInLoop, State.loops_setLoop, hloop]
  have htrace : (s.removeConnection none conn).trace = s.trace ++
      [.removeConnection none conn, .executed none (.removeConnectionInLoop conn)] := by
    simp [State.removeConnection, State.runInLoop, hlife]
  refine ⟨fun c _ => ?_, fun c hmem => ?_, fun heq => absurd (hcalls.life ▸ heq) hlife⟩
  · rw [hnew]
    exact hpc
  · rw [hnew] at hmem ⊢
    by_cases heq : c = conn
    · subst heq
      exact Or.inr (by simp [Loop.queue])
    · refine (h.channel c hmem).imp (State.Keeps.of_removed hcalls.life ?_) fun hold => ?_
      · rintro ⟨thread, hremoved⟩
        rw [htrace] at hremoved
        refine ⟨thread, ?_⟩
        simpa [heq] using hremoved
      · simp only [Loop.queue, ← List.append_assoc] at hold ⊢
        exact List.mem_append_left _ hold

/-- A connection is destroyed on the base loop, from the batch or at once. -/
theorem of_destroyed (h : BaseLoop s) (conn : Conn n) (pc : LoopPc n)
    (hloop : s'.loops none = { s.loops none with
      pc, channels_ := (s.loops none).channels_.filter (· ≠ conn) })
    (hfunctors : ∀ cb ∈ pc.functors, cb ∈ (s.loops none).pc.functors)
    (hkept : ∀ cb ∈ (s.loops none).pc.functors, cb = .connectDestroyed conn ∨ cb ∈ pc.functors)
    (hahead : (s.loops none).pc.handling = true → pc.handling = true)
    (hactive : pc.active = [] ∨ pc = (s.loops none).pc)
    (hkeeps : ∀ c ≠ conn, s.Keeps c → s'.Keeps c)
    (hlife : s'.life = .destroyed → s.life = .destroyed) : BaseLoop s' := by
  refine ⟨fun c hmem => ?_, fun c hmem => ?_, fun heq => ⟨fun cb hmem => ?_, ?_⟩⟩
  · rw [hloop] at hmem ⊢
    exact hahead (h.ahead c hmem)
  · rw [hloop] at hmem ⊢
    obtain ⟨hmem, hne⟩ := List.mem_filter.mp hmem
    have hne : c ≠ conn := of_decide_eq_true hne
    refine (h.channel c hmem).imp (hkeeps c hne) fun hold => ?_
    obtain hold | hold := List.mem_append.mp hold
    · refine List.mem_append_left _ ((hkept _ hold).resolve_left fun heq => hne ?_)
      exact Functor.connectDestroyed.inj heq
    · exact List.mem_append_right _ hold
  · rw [hloop] at hmem
    refine (h.closed (hlife heq)).1 cb ?_
    obtain hmem | hmem := List.mem_append.mp hmem
    · exact List.mem_append_left _ (hfunctors cb hmem)
    · exact List.mem_append_right _ hmem
  · rw [hloop]
    obtain hnil | hsame := hactive
    · exact hnil
    · rw [hsame]
      exact (h.closed (hlife heq)).2

/-- The base loop executes the next functor of its batch. -/
theorem runFunctor (h : BaseLoop s) (hk : Known s) (hq : Sequenced s) {functor : Functor n}
    {rest : List (Functor n)} (hpc : (s.loops none).pc = .batch (functor :: rest))
    (hrevive : ¬ functor.Revives s) :
    BaseLoop ((s.setPc none (.batch rest)).call none functor) := by
  have hmem : functor ∈ (s.loops none).queue := by simp [Loop.queue, LoopPc.functors, hpc]
  have hknown : Known (s.setPc none (.batch rest)) := by
    refine hk.setPc none ?_ (by simp [LoopPc.active])
    intro cb hcb
    rw [hpc]
    exact List.mem_cons_of_mem functor hcb
  -- a functor that destroys nothing leaves the queue
  have hpop : (∀ conn, functor ≠ .connectDestroyed conn) →
      BaseLoop (s.setPc none (.batch rest)) := by
    intro hcb
    refine ⟨fun conn hcd => ?_, fun conn hch => ?_, fun heq => ⟨fun cb hcd => ?_, ?_⟩⟩
    · simp only [State.setPc, State.loops_setLoop, if_true] at hcd
      have hhandling := h.ahead conn hcd
      rw [hpc] at hhandling
      cases hhandling
    · simp only [State.setPc, State.loops_setLoop, if_true, Loop.queue, LoopPc.functors] at hch ⊢
      refine (h.channel conn hch).imp_right fun hold => ?_
      simpa [Loop.queue, LoopPc.functors, hpc, (hcb conn).symm] using hold
    · refine (h.closed heq).1 cb ?_
      simp only [State.setPc, State.loops_setLoop, if_true, Loop.queue, LoopPc.functors] at hcd
      simp only [Loop.queue, LoopPc.functors, hpc, List.cons_append]
      exact List.mem_cons_of_mem functor hcd
    · simp [State.setPc, State.loops_setLoop, LoopPc.active]
  cases functor with
  | connectEstablished conn => exact absurd hmem (hq.base conn)
  | connectDestroyed conn =>
    have hbelongs : Belongs s.trace none (.connectDestroyed conn) := hk.functor none _ hmem
    have hloop : conn.loop_ = none := hbelongs.2
    refine h.of_destroyed conn (.batch rest) ?_ ?_ ?_ ?_ (Or.inl rfl) ?_ id
    · simp [State.call, State.run, State.connectDestroyed, State.setPc, State.loops_setLoop, hloop]
    · intro cb hcb
      rw [hpc]
      exact List.mem_cons_of_mem _ hcb
    · intro cb hcb
      rw [hpc] at hcb
      exact List.mem_cons.mp hcb
    · rw [hpc]
      exact id
    · intro c hc
      refine State.Keeps.of_removed rfl ?_
      rintro ⟨thread, hremoved⟩
      rw [State.trace_call] at hremoved
      refine ⟨thread, ?_⟩
      simpa [State.setPc] using hremoved
  | removeConnectionInLoop conn =>
    have hbelongs : Belongs s.trace none (.removeConnectionInLoop conn) := hk.functor none _ hmem
    exact (hpop (by simp)).callRemove hknown hbelongs.2.2
  | sendInLoop conn enables =>
    rw [State.call_sendInLoop none fun hnew => hrevive hnew.of_setPc]
    exact (hpop (by simp)).emit hknown (by simp)
  | shutdownInLoop conn => exact (hpop (by simp)).emit hknown (by simp)
  | user => exact (hpop (by simp)).emit hknown (by simp)

/-- A connection of the base loop is established. -/
theorem connectEstablished (h : BaseLoop s) {conn : Conn n} (hloop : conn.loop_ = none)
    (hkeeps : s.Keeps conn) : BaseLoop (s.connectEstablished conn) := by
  have hnew : (s.connectEstablished conn).loops none =
      { s.loops none with channels_ := conn :: (s.loops none).channels_ } := by
    simp [State.connectEstablished, State.loops_setLoop, hloop]
  refine ⟨?_, fun c hmem => ?_, fun heq => ?_⟩
  · rw [hnew]
    exact h.ahead
  · rw [hnew] at hmem ⊢
    obtain rfl | hmem := List.mem_cons.mp hmem
    · exact Or.inl hkeeps
    · exact h.channel c hmem
  · rw [hnew]
    exact h.closed heq

/-- A connection is accepted. -/
theorem newConnection (h : BaseLoop s) (hk : Known s) (hr : Registered s)
    (halive : s.life = .alive) : BaseLoop s.newConnection := by
  have hfresh : ¬ Removed s.trace s.newConn := by
    intro hmem
    exact Nat.lt_irrefl s.accepts (hr.ids _ (hr.removed _ hmem))
  have hremoved : ∀ conn, Removed (s.register s.newConn).trace conn → Removed s.trace conn := by
    rintro conn ⟨thread, hmem⟩
    exact ⟨thread, by simpa [State.register] using hmem⟩
  have hregister : BaseLoop (s.register s.newConn) :=
    h.of_eq hk rfl (fun conn _ => State.Keeps.of_removed rfl (hremoved conn)) id
  have hkeeps : (s.register s.newConn).Keeps s.newConn := by
    refine State.Keeps.of_removed (s := s) rfl (hremoved s.newConn) ?_
    unfold State.Keeps
    rw [halive]
    exact hfresh
  unfold State.newConnection State.runInLoop
  split
  · next hbase =>
    refine (hregister.emit hk.register (by simp)).connectEstablished hbase.symm ?_
    refine State.Keeps.of_removed (s := s.register s.newConn) rfl ?_ hkeeps
    rintro ⟨thread, hmem⟩
    exact ⟨thread, by simpa using hmem⟩
  · next hne =>
    cases hsub : s.newConn.loop_ with
    | none => exact absurd hsub.symm hne
    | some i => exact hregister.setOther hk.register i _

theorem baseStep (h : BaseLoop s) (hk : Known s) (hq : Sequenced s) (hs : LoopStep s none s')
    (hrevive : ∀ cb ∈ (s.loops none).pc.functors.head?, ¬ cb.Revives s) : BaseLoop s' := by
  -- a destroyed server has left no event behind
  have hidle : (s.loops none).pc.active ≠ [] → s.life ≠ .destroyed :=
    fun hne heq => hne (h.closed heq).2
  cases hs with
  | stop hpc hquit =>
    refine BaseLoop.emit (h.setPc ?_ ?_ fun _ => rfl) (hk.setPc none ?_ ?_) (by simp)
    · rw [hpc]
      rfl
    · simp [hpc, LoopPc.handling]
    · simp [LoopPc.functors]
    · simp [LoopPc.active]
  | poll hpc => exact h.setPc (by rw [hpc]; rfl) (by simp [hpc, LoopPc.handling]) fun _ => rfl
  | pollReturn active hpc hactive =>
    refine h.setPc (by rw [hpc]; rfl) (fun _ => rfl) fun hgone => ?_
    refine List.eq_nil_iff_forall_not_mem.mpr fun conn hmem => ?_
    -- the connection would still wait for its `connectDestroyed`, behind a poll
    obtain hkeeps | hqueue := h.channel conn (hactive conn hmem)
    · unfold State.Keeps at hkeeps
      rw [hgone] at hkeeps
      exact hkeeps
    · simp only [Loop.queue, hpc, LoopPc.functors, List.nil_append] at hqueue
      have hhandling := h.ahead conn hqueue
      rw [hpc] at hhandling
      cases hhandling
  | handleEvent conn rest hpc =>
    refine h.setPc (by rw [hpc]; rfl) (fun _ => rfl) fun hgone => absurd hgone (hidle ?_)
    simp [hpc, LoopPc.active]
  | beginClose conn rest hpc =>
    refine (h.move hk s.held s.calls _).setPc ?_ (fun _ => rfl) fun hgone => absurd hgone (hidle ?_)
    · show _ = (s.loops none).pc.functors
      rw [hpc]
      rfl
    · simp [hpc, LoopPc.active]
  | close conn rest pc state_ hpc hnext hstate =>
    have hlife : s.life ≠ .destroyed := hidle (by simp [hpc, LoopPc.active])
    have hcalls := s.calls_removeConnection none conn
    obtain ⟨hacc, hloop⟩ := hk.channel none conn (Or.inr (by rw [hpc]; exact List.mem_cons_self))
    have hclosed : BaseLoop { s.removeConnection none conn with state_ } :=
      (h.closeBase hloop (by rw [hpc]; rfl) hlife).move (hk.removeConnection hacc hloop) _ _ state_
    refine hclosed.setPc ?_ (fun _ => ?_) fun hgone => ?_
    · show _ = ((s.removeConnection none conn).loops none).pc.functors
      rw [hcalls.pc, hpc]
      obtain rfl | rfl := hnext <;> rfl
    · obtain rfl | rfl := hnext <;> rfl
    · exact absurd (hcalls.life ▸ hgone) hlife
  | swap hpc =>
    have hnew : (s.setLoop none fun loop =>
        { loop with pendingFunctors_ := [], pc := .batch loop.pendingFunctors_ }).loops none =
        { s.loops none with
          pendingFunctors_ := [], pc := .batch (s.loops none).pendingFunctors_ } := by
      simp [State.loops_setLoop]
    have hqueue : (s.loops none).queue = (s.loops none).pendingFunctors_ := by
      simp [Loop.queue, hpc, LoopPc.functors]
    refine ⟨fun conn hmem => ?_, fun conn hmem => ?_, fun heq => ⟨fun cb hmem => ?_, ?_⟩⟩
    · rw [hnew] at hmem
      cases hmem
    · rw [hnew] at hmem ⊢
      refine (h.channel conn hmem).imp_right fun hold => ?_
      rw [hqueue] at hold
      simpa [Loop.queue, LoopPc.functors] using hold
    · refine (h.closed heq).1 cb ?_
      rw [hqueue]
      rw [hnew] at hmem
      simpa [Loop.queue, LoopPc.functors] using hmem
    · rw [hnew]
      rfl
  | runFunctor functor rest hpc =>
    exact h.runFunctor hk hq hpc (hrevive functor (by rw [hpc]; rfl))
  | endBatch hpc =>
    exact h.setPc (by rw [hpc]; rfl) (by simp [hpc, LoopPc.handling]) fun _ => rfl

/-- A sub-loop reaches the base loop through `removeConnection` only. -/
theorem subStep (h : BaseLoop s) (hk : Known s) {i : Fin n} (hlife : s.life ≠ .destroyed)
    (hs : LoopStep s (some i) s') : BaseLoop s' := by
  have hmove : ∀ f, BaseLoop (s.setLoop (some i) f) := h.setOther hk i
  cases hs with
  | stop hpc hquit =>
    refine BaseLoop.emit (hmove _) (hk.setPc (some i) ?_ ?_) (by simp)
    · simp [LoopPc.functors]
    · simp [LoopPc.active]
  | beginClose conn rest hpc =>
    exact BaseLoop.setOther (h.move hk s.held s.calls _) (hk.setState (by simp)) i _
  | close conn rest pc state_ hpc hnext hstate =>
    obtain ⟨hacc, hloop⟩ :=
      hk.channel (some i) conn (Or.inr (by rw [hpc]; exact List.mem_cons_self))
    -- `closeCallback_` queues the removal on the base loop, while the server is there
    have hremove : BaseLoop (s.removeConnection (some i) conn) := by
      have hemit : BaseLoop (s.emit (.removeConnection (some i) conn)) := h.emit hk (by simp)
      unfold State.removeConnection State.runInLoop
      simp only [State.life_emit, hlife, if_false, reduceCtorEq]
      exact hemit.queueInLoop (by simp) fun hgone => absurd hgone hlife
    have hknown := hk.removeConnection hacc hloop
    refine BaseLoop.setOther (hremove.move hknown _ _ state_) ?_ i _
    exact hknown.move _ (fun c hc => Or.inl ⟨c, hc, rfl⟩) hstate
  | runFunctor functor rest hpc =>
    -- each functor of the batch belongs to this loop
    have hbelongs : Belongs s.trace (some i) functor :=
      hk.functor (some i) functor (by simp [Loop.queue, LoopPc.functors, hpc])
    have hknown : Known (s.setPc (some i) (.batch rest)) := by
      refine hk.setPc (some i) (fun cb hcb => ?_) (by simp [LoopPc.active])
      rw [hpc]
      exact List.mem_cons_of_mem functor hcb
    cases functor with
    | connectEstablished conn =>
      have hemit := BaseLoop.emit (hmove _) hknown
        (e := .executed (some i) (.connectEstablished conn)) (by simp)
      show BaseLoop (State.connectEstablished _ conn)
      unfold State.connectEstablished
      rw [hbelongs.2]
      refine BaseLoop.setOther (hemit.move (hknown.emit _) _ _ _) ?_ i _
      exact (hknown.emit _).setState fun _ => List.mem_append_left _ hbelongs.1
    | connectDestroyed conn =>
      have hemit := BaseLoop.emit (hmove _) hknown
        (e := .executed (some i) (.connectDestroyed conn)) (by simp)
      show BaseLoop (State.connectDestroyed _ conn)
      unfold State.connectDestroyed
      rw [hbelongs.2]
      refine BaseLoop.setOther (hemit.move (hknown.emit _) _ _ _) ?_ i _
      refine (hknown.emit _).setState fun hconn => ?_
      split at hconn
      · cases hconn
      · exact (hknown.emit _).connected conn hconn
    | removeConnectionInLoop conn => exact absurd hbelongs.2.1 (by simp)
    | sendInLoop conn enables =>
      have hemit := BaseLoop.emit (hmove _) hknown
        (e := .executed (some i) (.sendInLoop conn enables)) (by simp)
      show BaseLoop (State.sendInLoop _ conn enables)
      unfold State.sendInLoop
      split
      · exact hemit
      · rw [hbelongs.2]
        exact hemit.setOther (hknown.emit _) i _
    | shutdownInLoop | user => exact BaseLoop.emit (hmove _) hknown (by simp)
  | poll | pollReturn | handleEvent | swap | endBatch => exact hmove _

end BaseLoop

/-! ## Joined loops -/

/-- The destructor of the thread pool has joined this sub-loop. -/
def Life.joined : Life n → Fin n → Prop
  | .alive, _ | .destroying _, _ => False
  | .quitting k, i | .joining k, i => i < k
  | .destroyed, _ => True

/-- A step of a loop: it has not stopped, the other loops stay where they are, and the server
is not destroyed by it. -/
theorem LoopStep.frame {l : LoopId n} (hs : LoopStep s l s') :
    (s.loops l).pc ≠ .stopped ∧ (∀ l' ≠ l, (s'.loops l').pc = (s.loops l').pc) ∧
      s'.life = s.life ∧ s'.accepts = s.accepts := by
  cases hs with
  | close conn rest pc state_ hpc hnext hstate =>
    have hcalls := s.calls_removeConnection l conn
    refine ⟨by simp [hpc], fun l' hne => ?_, hcalls.life, hcalls.accepts⟩
    simp [State.setPc, State.loops_setLoop, hne, hcalls.pc]
  | runFunctor functor rest hpc =>
    have hcalls := (s.setPc l (.batch rest)).calls_call l functor
    refine ⟨by simp [hpc], fun l' hne => ?_, hcalls.life, hcalls.accepts⟩
    rw [hcalls.pc]
    simp [State.setPc, State.loops_setLoop, hne]
  | stop hpc | poll hpc | pollReturn _ hpc | handleEvent _ _ hpc | beginClose _ _ hpc | swap hpc
  | endBatch hpc =>
    refine ⟨by simp [hpc], fun l' hne => ?_, rfl, rfl⟩
    simp [State.setPc, State.loops_setLoop, hne]

/-- A step of a loop calls back only from the work that the loop holds. -/
theorem LoopStep.events {l : LoopId n} (hs : LoopStep s l s') :
    ∃ es : List (Event n), s'.trace = s.trace ++ es ∧ .destructed ∉ es ∧
      ((∀ cb ∈ (s.loops l).queue, cb.isRemoval = false) → (s.loops l).pc.active = [] →
        ∀ e ∈ es, e.callsBack = false) := by
  cases hs with
  | stop hpc hquit => exact ⟨[.loopReturned l], rfl, by simp, by simp [Event.callsBack]⟩
  | close conn rest pc state_ hpc hnext hstate =>
    have htrace : ∃ es, (s.removeConnection l conn).trace = s.trace ++ es ∧ .destructed ∉ es := by
      unfold State.removeConnection
      dsimp only
      split
      · exact ⟨[.removeConnection l conn], rfl, by simp⟩
      · refine ⟨.removeConnection l conn ::
          if l = none then [.executed l (.removeConnectionInLoop conn)] else [], ?_, ?_⟩
        · simp [State.trace_runInLoop]
        · split <;> simp
    obtain ⟨es, hes, hnone⟩ := htrace
    exact ⟨es, hes, hnone, by simp [hpc, LoopPc.active]⟩
  | runFunctor functor rest hpc =>
    refine ⟨[.executed l functor], by simp [State.setPc], by simp, fun hqueue _ e he => ?_⟩
    obtain rfl := List.mem_singleton.mp he
    exact hqueue functor (by simp [Loop.queue, hpc, LoopPc.functors])
  | poll | pollReturn | handleEvent | beginClose | swap | endBatch =>
    exact ⟨[], (List.append_nil _).symm, List.not_mem_nil, by simp⟩

structure Lifetime (s : State n) : Prop where
  sound : Sound s
  base : BaseLoop s
  joined : ∀ i, s.life.joined i → (s.loops (some i)).pc = .stopped
  few : s.accepts < 2 ^ 31
  destructed : .destructed ∈ s.trace → s.life = .destroyed
  justified : Justified NotCalledBack s.trace

namespace Lifetime

/-- While the server lives, every call is fine. -/
theorem justified_of_not_mem {t : List (Event n)} (h : .destructed ∉ t) :
    Justified NotCalledBack t := by
  rintro pre e post rfl -
  exact fun hmem => h (List.mem_append_left _ hmem)

theorem loopStep (h : Lifetime s) {l : LoopId n} (hs : LoopStep s l s') (hsound : Sound s')
    (hrevive : ∀ cb ∈ (s.loops l).pc.functors.head?, l = none → ¬ cb.Revives s) :
    Lifetime s' := by
  obtain ⟨hrunning, hother, hlife, haccepts⟩ := hs.frame
  obtain ⟨es, htrace, hdtor, hquiet⟩ := hs.events
  have hlive : s.life = .destroyed → l = none := by
    intro hgone
    cases l with
    | none => rfl
    | some i => exact absurd (h.joined i (by rw [hgone]; trivial)) hrunning
  have hdestructed : .destructed ∈ s'.trace → .destructed ∈ s.trace := by
    rw [htrace]
    intro hmem
    exact (List.mem_append.mp hmem).resolve_right hdtor
  refine ⟨hsound, ?_, fun i hi => ?_, haccepts ▸ h.few, fun hmem => ?_, ?_⟩
  · cases l with
    | none =>
      exact h.base.baseStep h.sound.known h.sound.sequenced hs fun cb hcb => hrevive cb hcb rfl
    | some i =>
      refine h.base.subStep h.sound.known (fun hgone => ?_) hs
      cases hlive hgone
  · rw [hlife] at hi
    have hstopped := h.joined i hi
    by_cases heq : some i = l
    · rw [heq] at hstopped
      exact absurd hstopped hrunning
    · rw [hother _ heq]
      exact hstopped
  · rw [hlife]
    exact h.destructed (hdestructed hmem)
  · by_cases hmem : .destructed ∈ s.trace
    · have hgone := h.destructed hmem
      obtain rfl := hlive hgone
      obtain ⟨hqueue, hactive⟩ := h.base.closed hgone
      rw [htrace]
      refine h.justified.append_free fun e he pre hcall => ?_
      rw [hquiet hqueue hactive e he] at hcall
      cases hcall
    · exact justified_of_not_mem fun hnew => hmem (hdestructed hnew)

/-- A step of a server that is not destroyed, and not by this step. -/
theorem of_living (h : Lifetime s) (hlife : s.life ≠ .destroyed) (hsound : Sound s')
    (hbase : BaseLoop s') (hjoined : ∀ i, s'.life.joined i → (s'.loops (some i)).pc = .stopped)
    (hfew : s'.accepts < 2 ^ 31) (hdtor : .destructed ∈ s'.trace → .destructed ∈ s.trace) :
    Lifetime s' := by
  have hnone : .destructed ∉ s'.trace := fun hmem => hlife (h.destructed (hdtor hmem))
  exact ⟨hsound, hbase, hjoined, hfew, fun hmem => absurd hmem hnone, justified_of_not_mem hnone⟩

/-- The destructor comes across every connection of the base loop. -/
theorem destructor (h : Lifetime s) (halive : s.life = .alive) :
    BaseLoop { s with life := .destroying (s.connections_.entries.map Sigma.snd) } := by
  refine h.base.setLife h.sound.known (by simp) fun conn _ hacc hkeeps => ?_
  unfold State.Keeps at hkeeps
  rw [halive] at hkeeps
  have hlook := (h.sound.registered.exact_ halive h.few conn.name_ conn).mpr ⟨hacc, rfl, hkeeps⟩
  show conn ∈ s.connections_.entries.map Sigma.snd
  exact List.mem_map_of_mem (AList.mem_lookup_iff.mp hlook)

/-- The destructor visits one connection. -/
theorem destroyItem (h : Lifetime s) {conn : Conn n} {items : List (Conn n)}
    (hlife : s.life = .destroying items) :
    BaseLoop ({ s with life := .destroying (items.erase conn) }.runInLoop none conn.loop_
      (.connectDestroyed conn)) := by
  have hkeeps : ∀ c ≠ conn, s.Keeps c →
      State.Keeps { s with life := .destroying (items.erase conn) } c := by
    intro c hne hold
    unfold State.Keeps at hold
    rw [hlife] at hold
    exact (List.mem_erase_of_ne hne).mpr hold
  unfold State.runInLoop
  split
  · next hbase =>
    refine h.base.of_destroyed conn (s.loops none).pc ?_ (fun _ => id)
      (fun _ => Or.inr) id (Or.inr rfl) (fun c hne hold => ?_) ?_
    · simp [State.call, State.run, State.connectDestroyed, State.loops_setLoop, hbase.symm]
    · exact State.Keeps.of_removed rfl (fun hmem => by simpa [Removed] using hmem)
        (hkeeps c hne hold)
    · rw [(State.calls_call _ none _).life]
      intro heq
      cases heq
  · next hsub =>
    cases hloop : conn.loop_ with
    | none => exact absurd hloop.symm hsub
    | some i =>
      have hvisit : BaseLoop { s with life := .destroying (items.erase conn) } := by
        refine h.base.setLife h.sound.known (by simp) fun c hc _ hold => hkeeps c ?_ hold
        rintro rfl
        rw [hc] at hloop
        cases hloop
      refine hvisit.setOther (h.sound.known.setLife ?_) i _
      rintro _ ⟨⟩ c hc
      exact h.sound.known.items items hlife c (List.mem_of_mem_erase hc)

theorem step (s : State n) (a : Action n) (s' : State n) (h : Lifetime s) (hguard : Settled s a)
    (hs : step s a = some s') : Lifetime s' := by
  have hsound : Sound s' := Sound.step s a s' h.sound hs
  cases Step.of_step hs with
  | loop l a _ hfree hs => exact h.loopStep hs hsound fun cb hcb => (hguard cb hcb).2
  | accept active hpc halive =>
    -- a server that accepts is alive: what it queues is `connectEstablished`
    have hcalls := (s.register s.newConn).calls_runInLoop none s.newConn.loop_
      (.connectEstablished s.newConn)
    have hlife : s.newConnection.life = .alive := hcalls.life.trans halive
    have haccepts : s.newConnection.accepts = s.accepts + 1 := hcalls.accepts
    refine h.of_living (by simp [halive]) hsound ?_ (fun i hi => ?_) ?_ fun hmem => ?_
    · exact h.base.newConnection h.sound.known h.sound.registered halive
    · rw [hlife] at hi
      exact hi.elim
    · rw [haccepts]
      exact hguard
    · rw [State.newConnection, State.trace_runInLoop] at hmem
      split at hmem <;> simpa [State.register] using hmem
  | queueUser l =>
    have hcalls := s.calls_queueInLoop l .user
    refine ⟨hsound, ?_, fun i hi => ?_, h.few, h.destructed, h.justified⟩
    · cases l with
      | none => exact h.base.queueInLoop (by simp) fun _ => rfl
      | some i => exact h.base.setOther h.sound.known i _
    · rw [hcalls.pc]
      exact h.joined i hi
  | user a _ hs =>
    cases hs with
    | move held calls state_ =>
      -- copies, calls that begin and stores of the state queue nothing
      exact ⟨hsound, h.base.move h.sound.known held calls state_, h.joined, h.few, h.destructed,
        h.justified⟩
    | queue c cb hmem hcb =>
      -- the call has tested the state, and queues its functor
      have herase : BaseLoop { s with calls := s.calls.erase c } :=
        h.base.move h.sound.known s.held _ s.state_
      have hknown : Known { s with calls := s.calls.erase c } :=
        h.sound.known.move s.held (fun c' hc' => Or.inl ⟨c', List.mem_of_mem_erase hc', rfl⟩)
          fun _ => id
      have hcalls := { s with calls := s.calls.erase c }.calls_queueInLoop c.conn.loop_ cb
      refine ⟨hsound, ?_, fun i hi => ?_, h.few, h.destructed, h.justified⟩
      · cases c.conn.loop_ with
        | none =>
          obtain ⟨enables, rfl⟩ | rfl := hcb
          · exact herase.queueInLoop (by simp) fun _ => rfl
          · exact herase.queueInLoop (by simp) fun _ => rfl
        | some i => exact herase.setOther hknown i _
      · rw [hcalls.pc]
        exact h.joined i hi
  | destructor halive =>
    -- from here on the map is taken apart
    refine h.of_living (by simp [halive]) hsound ?_ (fun i hi => hi.elim) h.few (by simp)
    refine (h.destructor halive).emit (h.sound.known.setLife ?_) (by simp)
    rintro _ ⟨⟩
    exact h.sound.known.values
  | destroyItem conn items hlife hmem =>
    -- `connectDestroyed` goes to the loop of the connection
    refine h.of_living (by simp [hlife]) hsound (h.destroyItem hlife) (fun i hi => ?_) ?_
      fun hmem => ?_
    · rw [(State.calls_runInLoop _ none _ _).life] at hi
      exact hi.elim
    · rw [(State.calls_runInLoop _ none _ _).accepts]
      exact h.few
    · rw [State.trace_runInLoop] at hmem
      split at hmem <;> simpa using hmem
  | endBody hlife =>
    refine h.of_living (by simp [hlife]) hsound ?_ (fun i hi => ?_) h.few id
    · refine h.base.setLife h.sound.known (by simp) fun conn _ _ hold => ?_
      unfold State.Keeps at hold
      rw [hlife] at hold
      cases hold
    · exact absurd hi (Nat.not_lt_zero i)
  | quitLoop i hlife =>
    refine h.of_living (by simp [hlife]) hsound ?_ (fun j hj => ?_) h.few id
    · refine BaseLoop.setOther ?_ (h.sound.known.setLife (by simp)) i _
      refine h.base.setLife h.sound.known (by simp) fun conn _ _ hold => ?_
      unfold State.Keeps at hold
      rw [hlife] at hold
      exact hold
    · -- this loop has not been joined yet
      have hstopped := h.joined j (by rw [hlife]; exact hj)
      have hne : j ≠ i := fun heq => Nat.ne_of_lt hj (congrArg Fin.val heq)
      simpa [State.loops_setLoop, hne] using hstopped
  | joinLoop i hlife hpc =>
    refine h.of_living (by simp [hlife]) hsound ?_ (fun j hj => ?_) h.few id
    · refine h.base.setLife h.sound.known (by simp) fun conn _ _ hold => ?_
      unfold State.Keeps at hold
      rw [hlife] at hold
      exact hold
    · obtain hlt | heq := Nat.lt_succ_iff_lt_or_eq.mp hj
      · exact h.joined j (by rw [hlife]; exact hlt)
      · rw [Fin.ext heq]
        exact hpc
  | finish hlife =>
    -- the destructor ends once, and the guard leaves the base loop nothing to call
    have hnone : .destructed ∉ s.trace := by
      intro hmem
      rw [h.destructed hmem] at hlife
      cases hlife
    refine ⟨hsound, ⟨h.base.ahead, fun conn hmem => ?_, fun _ => hguard⟩, fun i _ => ?_, h.few,
      fun _ => rfl, (justified_of_not_mem hnone).concat ?_⟩
    · refine (h.base.channel conn hmem).imp_left fun hold => ?_
      unfold State.Keeps at hold
      rw [hlife] at hold
      exact hold
    · exact h.joined i (by rw [hlife]; exact i.isLt)
    · intro hcall
      cases hcall

end Lifetime

/-- **A settled server is never called back.** If the destructor finishes while the base loop
holds no work for the server, no later step calls `removeConnection` or
`removeConnectionInLoop` on it. -/
theorem never_called_back (n : Nat) (nameArg : List UInt8) (listenAddr : InetAddress)
    (as : List (Action n)) (s : State n) (hrun : run step (start n nameArg listenAddr) as = some s)
    (hguard : Guarded step Settled (start n nameArg listenAddr) as) :
    Justified NotCalledBack s.trace := by
  have hstart : Lifetime (start n nameArg listenAddr) := by
    refine ⟨sound_start n nameArg listenAddr, ⟨?_, ?_, ?_⟩, ?_, ?_, ?_, justified_nil⟩
    all_goals simp [start, Life.joined]
  have hend : Lifetime s := run_invariant Lifetime.step hstart hguard hrun
  exact hend.justified

/-- A connection closes, the base loop executes its removal, and then the server is destroyed. -/
def settledRun : List (Action 1) :=
  closedByPeer ++
    [.loop none .endBatch, .destructor, .endBody, .quitLoop, .loop subLoop .endBatch,
      .loop subLoop .testQuit, .joinLoop, .finish, .loop none .testQuit,
      .loop none (.pollReturn []), .loop none .swapFunctors]

theorem never_called_back_settledRun : ∃ s, run step echoServer settledRun = some s ∧
    .destructed ∈ s.trace ∧ Justified NotCalledBack s.trace := by
  refine ⟨_, rfl, by decide, ?_⟩
  have hrun : run step echoServer settledRun = some _ := rfl
  exact never_called_back 1 _ _ settledRun _ hrun (by decide)

/-- A connection closes, and the server is destroyed before the base loop comes to the removal. -/
def lateRemovalRun : List (Action 1) :=
  [.loop none .testQuit, .loop none (.pollReturn []), .accept, .loop subLoop .testQuit,
    .loop subLoop (.pollReturn []), .loop subLoop .swapFunctors, .loop subLoop .runFunctor,
    .loop subLoop .endBatch, .loop subLoop .testQuit,
    .loop subLoop (.pollReturn [echoServer.newConn]), .loop subLoop (.handleEvent true),
    .loop subLoop (.closeCallback false), .destructor, .destroyItem echoServer.newConn, .endBody,
    .quitLoop, .loop subLoop .swapFunctors, .loop subLoop .runFunctor, .loop subLoop .endBatch,
    .loop subLoop .testQuit, .joinLoop, .finish, .loop none .swapFunctors, .loop none .runFunctor]

theorem lateRemovalRun_calls_back : ∃ s, run step echoServer lateRemovalRun = some s ∧
    s.trace = [.accepted echoServer.newConn,
      .executed (some 0) (.connectEstablished echoServer.newConn),
      .removeConnection (some 0) echoServer.newConn, .destructor [echoServer.newConn],
      .executed (some 0) (.connectDestroyed echoServer.newConn), .loopReturned (some 0),
      .destructed, .executed none (.removeConnectionInLoop echoServer.newConn)] ∧
    ¬ Justified NotCalledBack s.trace := by
  refine ⟨_, rfl, rfl, fun hjust => ?_⟩
  exact hjust [.accepted echoServer.newConn,
    .executed (some 0) (.connectEstablished echoServer.newConn),
    .removeConnection (some 0) echoServer.newConn, .destructor [echoServer.newConn],
    .executed (some 0) (.connectDestroyed echoServer.newConn), .loopReturned (some 0),
    .destructed] (.executed none (.removeConnectionInLoop echoServer.newConn)) [] rfl rfl
    (by decide)

/-- A server on `127.0.0.1:8000` without sub-loops. -/
def baseServer : State 0 := start 0 (ByteString.ascii "EchoServer") ⟨(127, 0, 0, 1), 8000⟩

/-- Another thread sends and shuts down, the server is destroyed, and then the base loop comes to
the send. The peer closes the connection behind that. -/
def revivedRun : List (Action 0) :=
  [.loop none .testQuit, .loop none (.pollReturn []), .accept, .user (.hold baseServer.newConn),
    .user (.testSend baseServer.newConn), .user (.queueSend baseServer.newConn true),
    .user (.testShutdown baseServer.newConn), .user (.storeDisconnecting baseServer.newConn),
    .destructor, .destroyItem baseServer.newConn, .endBody, .finish, .loop none .swapFunctors,
    .loop none .runFunctor, .loop none .endBatch, .loop none .testQuit,
    .loop none (.pollReturn [baseServer.newConn]), .loop none (.handleEvent true),
    .loop none (.closeCallback false)]

/-- At the end of the destructor the base loop holds no removal and no event. -/
theorem revivedRun_calls_back : ∃ s, run step baseServer revivedRun = some s ∧
    s.trace = [.accepted baseServer.newConn,
      .executed none (.connectEstablished baseServer.newConn),
      .destructor [baseServer.newConn], .executed none (.connectDestroyed baseServer.newConn),
      .destructed, .executed none (.sendInLoop baseServer.newConn true),
      .removeConnection none baseServer.newConn] ∧
    ¬ Justified NotCalledBack s.trace := by
  refine ⟨_, rfl, rfl, fun hjust => ?_⟩
  exact hjust [.accepted baseServer.newConn,
    .executed none (.connectEstablished baseServer.newConn),
    .destructor [baseServer.newConn], .executed none (.connectDestroyed baseServer.newConn),
    .destructed, .executed none (.sendInLoop baseServer.newConn true)]
    (.removeConnection none baseServer.newConn) [] rfl rfl (by decide)

end CppInOne.Mymuduo.TcpServer
