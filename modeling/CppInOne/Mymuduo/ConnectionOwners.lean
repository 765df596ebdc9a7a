import CppInOne.Mymuduo.ServerLifetime

/-!
# The owners of a connection

A poller and the active channels of a loop are raw pointers into a connection, which lives as
long as somebody has a `TcpConnectionPtr` to it: the server in `connections_`, user code, and
each functor that is bound to it. The destructor of the connection closes its descriptor. This
file proves that neither a poller nor an active channel outlives the owners, while the server
lives or on a sub-loop. It leaves out the runs in which a functor that `send` or `shutdown` bound
to a raw `this` comes too late.

## Main definitions

- `Sheltered` — such a functor finds the connection owned, and revives no channel

## Main results

- `released_after_destroyed` — without an owner, a connection has been destroyed by its loop
-/

namespace CppInOne.Mymuduo.TcpServer
open Transition Trace

variable {n : Nat} {s s' s'' : State n}

/-- A functor with a raw `this` finds its connection owned, and its channel in the poller if it
comes to `enableWriting`. -/
def Sheltered (s : State n) : Action n → Prop
  | .loop l _ => ∀ cb ∈ (s.loops l).pc.functors.head?, ¬ cb.Dangling s ∧ ¬ cb.Revives s
  | _ => True

instance (s : State n) : ∀ a, Decidable (Sheltered s a)
  | .loop l _ => inferInstanceAs (Decidable (∀ cb ∈ (s.loops l).pc.functors.head?,
      ¬ cb.Dangling s ∧ ¬ cb.Revives s))
  | .accept | .queueUser _ | .user _ | .destructor | .destroyItem _ | .endBody | .quitLoop
  | .joinLoop | .finish => .isTrue trivial

/-! ## Scripts grow -/

/-- No loop loses what it has executed or is going to execute. -/
def Extends (s s' : State n) : Prop := ∀ l, s.script l ⊆ s'.script l

namespace Extends

theorem trans (h : Extends s s') (h' : Extends s' s'') : Extends s s'' :=
  fun l => List.Subset.trans (h l) (h' l)

theorem emit (s : State n) (e : Event n) : Extends s (s.emit e) := by
  intro l cb hmem
  simp only [State.script, State.loops_emit, State.trace_emit, executed_append] at hmem ⊢
  obtain hmem | hmem := List.mem_append.mp hmem
  · exact List.mem_append_left _ (List.mem_append_left _ hmem)
  · exact List.mem_append_right _ hmem

theorem setLoop (s : State n) (l : LoopId n) (f : Loop n → Loop n)
    (hqueue : (s.loops l).queue ⊆ (f (s.loops l)).queue) : Extends s (s.setLoop l f) := by
  intro l' cb hmem
  simp only [State.script, State.trace_setLoop, State.loops_setLoop] at hmem ⊢
  obtain hmem | hmem := List.mem_append.mp hmem
  · exact List.mem_append_left _ hmem
  · refine List.mem_append_right _ ?_
    split
    · next heq =>
      subst heq
      exact hqueue hmem
    · exact hmem

theorem setLife (s : State n) (life : Life n) : Extends s { s with life } :=
  fun _ => List.Subset.refl _

theorem setPc (s : State n) (l : LoopId n) {pc : LoopPc n}
    (hfunctors : (s.loops l).pc.functors ⊆ pc.functors) : Extends s (s.setPc l pc) := by
  refine setLoop s l _ fun cb hmem => ?_
  obtain hmem | hmem := List.mem_append.mp hmem
  · exact List.mem_append_left _ (hfunctors hmem)
  · exact List.mem_append_right _ hmem

theorem queueInLoop (s : State n) (l : LoopId n) (cb : Functor n) :
    Extends s (s.queueInLoop l cb) := by
  refine setLoop s l _ fun f hmem => ?_
  obtain hmem | hmem := List.mem_append.mp hmem
  · exact List.mem_append_left _ hmem
  · exact List.mem_append_right _ (List.mem_append_left _ hmem)

theorem move (s : State n) (held : List (Conn n)) (calls : List (Call n))
    (state_ : Conn n → StateE) : Extends s { s with held, calls, state_ } :=
  fun _ => List.Subset.refl _

theorem run (s : State n) (cb : Functor n) : Extends s (s.run cb) := by
  cases cb with
  | connectEstablished conn | connectDestroyed conn =>
    exact (move s s.held s.calls _).trans (setLoop _ conn.loop_ _ fun _ => id)
  | removeConnectionInLoop conn =>
    show Extends s (s.removeConnectionInLoop conn)
    unfold State.removeConnectionInLoop
    split
    · exact fun _ => List.Subset.refl _
    · exact queueInLoop { s with connections_ := s.connections_.erase conn.name_ } _ _
  | sendInLoop conn enables =>
    show Extends s (s.sendInLoop conn enables)
    unfold State.sendInLoop
    split
    · exact fun l => List.Subset.refl _
    · exact setLoop s conn.loop_ _ fun _ => id
  | shutdownInLoop | user => exact fun l => List.Subset.refl _

theorem call (s : State n) (thread : LoopId n) (cb : Functor n) :
    Extends s (s.call thread cb) := (emit s _).trans (run _ cb)

theorem runInLoop (s : State n) (thread l : LoopId n) (cb : Functor n) :
    Extends s (s.runInLoop thread l cb) := by
  unfold State.runInLoop
  split
  · exact call s thread cb
  · exact queueInLoop s l cb

theorem removeConnection (s : State n) (thread : LoopId n) (conn : Conn n) :
    Extends s (s.removeConnection thread conn) := by
  refine (emit s (.removeConnection thread conn)).trans ?_
  unfold State.removeConnection
  dsimp only
  split
  · exact fun l => List.Subset.refl _
  · exact runInLoop _ _ _ _

/-- The functor leaves the batch and is recorded as executed. -/
theorem pop {l : LoopId n} {functor : Functor n} {rest : List (Functor n)}
    (hpc : (s.loops l).pc = .batch (functor :: rest)) :
    Extends s ((s.setPc l (.batch rest)).emit (.executed l functor)) := by
  intro l' cb hmem
  by_cases heq : l' = l
  · subst heq
    simp only [State.script, State.setPc, State.loops_emit, State.loops_setLoop, if_true,
      State.trace_emit, State.trace_setLoop, executed_append, executed_executed, Loop.queue,
      LoopPc.functors, hpc, List.mem_append, List.mem_cons] at hmem ⊢
    tauto
  · simpa [State.script, State.setPc, State.loops_setLoop, heq, Ne.symm heq] using hmem

theorem loopStep {l : LoopId n} (hs : LoopStep s l s') : Extends s s' := by
  cases hs with
  | stop hpc hquit => exact (setPc s l (by simp [hpc, LoopPc.functors])).trans (emit _ _)
  | poll hpc | pollReturn _ hpc | handleEvent _ _ hpc =>
    exact setPc s l (by simp [hpc, LoopPc.functors])
  | beginClose _ _ hpc =>
    exact (move s s.held s.calls _).trans (setPc _ l (by simp [hpc, LoopPc.functors]))
  | close conn rest pc state_ hpc hnext hstate =>
    have hclosed : Extends s { s.removeConnection l conn with state_ } :=
      (removeConnection s l conn).trans (move _ _ _ state_)
    refine hclosed.trans (setPc _ l ?_)
    rw [(s.calls_removeConnection l conn).pc, hpc]
    exact List.nil_subset _
  | swap hpc =>
    refine setLoop s l _ ?_
    simp [Loop.queue, hpc, LoopPc.functors]
  | runFunctor functor rest hpc => exact (pop hpc).trans (run _ functor)
  | endBatch hpc => exact setPc s l (by simp [hpc, LoopPc.functors])

theorem userStep (hs : UserStep s s') : Extends s s' := by
  cases hs with
  | move held calls state_ => exact move s held calls state_
  | queue c => exact (move s s.held (s.calls.erase c) s.state_).trans (queueInLoop _ _ _)

theorem register (s : State n) (conn : Conn n) : Extends s (s.register conn) := by
  intro l cb hmem
  simpa [State.script, State.register, executed] using hmem

end Extends

/-! ## Kept or ended -/

/-- Every connection is kept by the server, or its loop destroys it some time. -/
def Kept (s : State n) : Prop :=
  ∀ conn, .accepted conn ∈ s.trace → s.Keeps conn ∨ .connectDestroyed conn ∈ s.script conn.loop_

namespace Kept

theorem of_extends (h : Kept s) (hext : Extends s s')
    (hacc : ∀ conn, .accepted conn ∈ s'.trace → .accepted conn ∈ s.trace)
    (hkeeps : ∀ conn, .accepted conn ∈ s.trace → s.Keeps conn →
      s'.Keeps conn ∨ .connectDestroyed conn ∈ s'.script conn.loop_) : Kept s' := by
  intro conn hconn
  obtain hkept | hended := h conn (hacc conn hconn)
  · exact hkeeps conn (hacc conn hconn) hkept
  · exact Or.inr (hext conn.loop_ hended)

/-- Nothing is accepted or removed. -/
theorem quiet (h : Kept s) (hext : Extends s s') (hlife : s'.life = s.life) (hq : Quiet s s') :
    Kept s' :=
  h.of_extends hext (fun conn => (hq.accepted conn).mp) fun conn _ hkeeps =>
    Or.inl (hkeeps.of_removed hlife (hq.removed conn).mp)

/-- A removal leaves the end of the connection to its loop. -/
theorem callRemove (h : Kept s) (thread : LoopId n) (conn : Conn n) :
    Kept (s.call thread (.removeConnectionInLoop conn)) := by
  refine h.of_extends (.call s thread _) (by simp) fun c _ hkeeps => ?_
  by_cases heq : c = conn
  · subst heq
    have hlife : s.life ≠ .destroyed := by
      intro hgone
      simp [State.Keeps, hgone] at hkeeps
    refine Or.inr (List.mem_append_right _ ?_)
    simp [State.call, State.run, State.removeConnectionInLoop, hlife, State.queueInLoop,
      State.loops_setLoop, Loop.queue]
  · refine Or.inl (hkeeps.of_removed (State.calls_call s thread _).life ?_)
    rintro ⟨thread', hmem⟩
    exact ⟨thread', by simpa [heq] using hmem⟩

theorem call (h : Kept s) (thread : LoopId n) (cb : Functor n) : Kept (s.call thread cb) := by
  cases cb with
  | removeConnectionInLoop conn => exact h.callRemove thread conn
  | connectEstablished | connectDestroyed | sendInLoop | shutdownInLoop | user =>
    exact h.quiet (.call s thread _) (State.calls_call s thread _).life
      (Quiet.call s thread (by simp))

theorem removeConnection (h : Kept s) (thread : LoopId n) (conn : Conn n) :
    Kept (s.removeConnection thread conn) := by
  have hemit : Kept (s.emit (.removeConnection thread conn)) :=
    h.quiet (.emit s _) rfl (Quiet.emit s (by simp) (by simp))
  unfold State.removeConnection State.runInLoop
  dsimp only
  split
  · exact hemit
  · split
    · exact hemit.call thread _
    · exact hemit.quiet (.queueInLoop _ _ _) rfl (Quiet.setLoop _ _ _)

theorem newConnection (h : Kept s) (hr : Registered s) (halive : s.life = .alive) :
    Kept s.newConnection := by
  have hfresh : ¬ Removed s.trace s.newConn := by
    intro hmem
    exact Nat.lt_irrefl s.accepts (hr.ids _ (hr.removed _ hmem))
  have hremoved : ∀ conn, Removed (s.register s.newConn).trace conn → Removed s.trace conn := by
    rintro conn ⟨thread, hmem⟩
    exact ⟨thread, by simpa [State.register] using hmem⟩
  have hregister : Kept (s.register s.newConn) := by
    intro conn hconn
    have hsplit : .accepted conn ∈ s.trace ∨ conn = s.newConn := by
      simpa [State.register] using hconn
    obtain hold | rfl := hsplit
    · refine (h conn hold).imp ?_ fun hended => Extends.register s _ conn.loop_ hended
      exact State.Keeps.of_removed rfl (hremoved conn)
    · refine Or.inl (State.Keeps.of_removed (s := s) rfl (hremoved s.newConn) ?_)
      unfold State.Keeps
      rw [halive]
      exact hfresh
  exact hregister.quiet (.runInLoop _ _ _ _) (State.calls_runInLoop _ _ _ _).life
    (Quiet.runInLoop _ _ _ (by simp))

theorem loopStep (h : Kept s) {l : LoopId n} (hs : LoopStep s l s') : Kept s' := by
  have hlife := hs.frame.2.2.1
  have hext := Extends.loopStep hs
  cases hs with
  | stop hpc hquit =>
    exact h.quiet hext hlife ((Quiet.setLoop s l _).trans (Quiet.emit _ (by simp) (by simp)))
  | beginClose conn rest hpc =>
    exact h.quiet hext hlife ((Quiet.move s s.held s.calls _).trans (Quiet.setLoop _ l _))
  | close conn rest pc state_ hpc hnext hstate =>
    have hclosed : Kept { s.removeConnection l conn with state_ } :=
      (h.removeConnection l conn).quiet (.move _ _ _ state_) rfl (Quiet.move _ _ _ state_)
    refine hclosed.quiet (.setPc _ l ?_) rfl (Quiet.setLoop _ l _)
    rw [(s.calls_removeConnection l conn).pc, hpc]
    exact List.nil_subset _
  | runFunctor functor rest hpc =>
    cases functor with
    | removeConnectionInLoop conn =>
      -- the removal is out of the batch, which says nothing about the ends of connections
      have hpop : Kept (s.setPc l (.batch rest)) := by
        intro c hconn
        refine (h c hconn).imp (State.Keeps.of_removed rfl id) fun hended => ?_
        have hmem := Extends.pop hpc c.loop_ hended
        simp only [State.script, State.loops_emit, State.trace_emit, executed_append,
          executed_executed, List.mem_append] at hmem ⊢
        refine hmem.imp_left fun hex => hex.resolve_right ?_
        split <;> simp
      exact hpop.callRemove l conn
    | connectEstablished | connectDestroyed | sendInLoop | shutdownInLoop | user =>
      exact h.quiet hext hlife ((Quiet.setLoop s l _).trans (Quiet.call _ l (by simp)))
  | poll | pollReturn | handleEvent | swap | endBatch =>
    exact h.quiet hext hlife (Quiet.setLoop s l _)

/-- The life of the server goes on, and the server gives no connection up. -/
theorem setLife (h : Kept s) {life : Life n}
    (hkeeps : ∀ conn, .accepted conn ∈ s.trace → s.Keeps conn →
      State.Keeps { s with life } conn) : Kept { s with life } :=
  h.of_extends (.setLife s life) (fun _ => id) fun conn hconn hold =>
    Or.inl (hkeeps conn hconn hold)

/-- The destructor visits a connection, which is then destroyed at once or by its loop. -/
theorem destroyItem (h : Kept s) {conn : Conn n} {items : List (Conn n)}
    (hlife : s.life = .destroying items) :
    Kept ({ s with life := .destroying (items.erase conn) }.runInLoop none conn.loop_
      (.connectDestroyed conn)) := by
  have hext : Extends s ({ s with life := .destroying (items.erase conn) }.runInLoop none
      conn.loop_ (.connectDestroyed conn)) :=
    (Extends.setLife s _).trans (.runInLoop _ _ _ _)
  have hq : Quiet s ({ s with life := .destroying (items.erase conn) }.runInLoop none
      conn.loop_ (.connectDestroyed conn)) :=
    (Quiet.setLife s (by simp)).trans (Quiet.runInLoop _ _ _ (by simp))
  refine h.of_extends hext (fun c => (hq.accepted c).mp) fun c _ hkeeps => ?_
  by_cases heq : c = conn
  · subst heq
    right
    unfold State.runInLoop
    split
    · next hbase =>
      refine List.mem_append_left _ ?_
      simp [State.trace_call, hbase.symm]
    · refine List.mem_append_right _ ?_
      simp [State.queueInLoop, State.loops_setLoop, Loop.queue]
  · left
    unfold State.Keeps at hkeeps ⊢
    rw [hlife] at hkeeps
    rw [(State.calls_runInLoop _ none _ _).life]
    exact (List.mem_erase_of_ne heq).mpr hkeeps

theorem step (h : Kept s) (hr : Registered s) (haccepts : s.accepts < 2 ^ 31) {a : Action n}
    (hs : step s a = some s') : Kept s' := by
  cases Step.of_step hs with
  | loop l a _ hfree hs => exact h.loopStep hs
  | accept active hpc halive => exact h.newConnection hr halive
  | queueUser l => exact h.quiet (.queueInLoop s l _) rfl (Quiet.setLoop s l _)
  | user a _ hs =>
    have hlife : s'.life = s.life := by cases hs <;> rfl
    exact h.quiet (.userStep hs) hlife (Quiet.userStep hs)
  | destructor halive =>
    refine Kept.quiet (s := { s with life := _ }) (h.setLife fun conn hconn hkeeps => ?_)
      (.emit _ _) rfl (Quiet.emit _ (by simp) (by simp))
    -- what has not been removed is in the registry
    unfold State.Keeps at hkeeps
    rw [halive] at hkeeps
    have hlook := (hr.exact_ halive haccepts conn.name_ conn).mpr ⟨hconn, rfl, hkeeps⟩
    show conn ∈ s.connections_.entries.map Sigma.snd
    exact List.mem_map_of_mem (AList.mem_lookup_iff.mp hlook)
  | destroyItem conn items hlife hmem => exact h.destroyItem hlife
  | endBody hlife =>
    refine h.setLife fun conn _ hkeeps => ?_
    simp [State.Keeps, hlife] at hkeeps
  | quitLoop i hlife =>
    refine Kept.quiet (s := { s with life := .joining i }) (h.setLife fun conn _ hkeeps => ?_)
      (.setLoop _ _ _ (List.Subset.refl _)) rfl (Quiet.setLoop _ _ _)
    simp [State.Keeps, hlife] at hkeeps
  | joinLoop i hlife hpc =>
    refine h.setLife fun conn _ hkeeps => ?_
    simp [State.Keeps, hlife] at hkeeps
  | finish hlife =>
    refine Kept.quiet (s := { s with life := .destroyed }) (h.setLife fun conn _ hkeeps => ?_)
      (.emit _ _) rfl (Quiet.emit _ (by simp) (by simp))
    simp [State.Keeps, hlife] at hkeeps

end Kept

/-! ## Raw pointers -/

/-- A connection starts on its loop only once, so not behind its end. -/
theorem connectDestroyed_notMem {t : List (Functor n)} {conn : Conn n}
    (h : Justified Ordered (t ++ [.connectEstablished conn])) : .connectDestroyed conn ∉ t := by
  intro hmem
  obtain ⟨pre, post, rfl⟩ := List.append_of_mem hmem
  have hbefore : .connectEstablished conn ∈ pre :=
    h pre (.connectDestroyed conn) (post ++ [.connectEstablished conn]) (by simp)
  have honce : .connectEstablished conn ∉ pre ++ .connectDestroyed conn :: post :=
    h _ (.connectEstablished conn) [] rfl
  exact honce (List.mem_append_left _ hbefore)

/-- A poller has no connection that its loop has destroyed, and the active channels are of
connections that the poller has, if the destructor does not run on the thread of the loop. -/
structure Polled (s : State n) : Prop where
  channel : ∀ l, ∀ conn ∈ (s.loops l).channels_, .connectDestroyed conn ∉ executed l s.trace
  active : ∀ l, (l = none → s.life = .alive) →
    ∀ conn ∈ (s.loops l).pc.active, conn ∈ (s.loops l).channels_

namespace Polled

/-- No connection is established or destroyed. -/
theorem of_eq (h : Polled s) (hchannels : ∀ l, (s'.loops l).channels_ = (s.loops l).channels_)
    (hexec : ∀ l conn, .connectDestroyed conn ∈ executed l s'.trace →
      .connectDestroyed conn ∈ executed l s.trace) (halive : s'.life = .alive → s.life = .alive)
    (hactive : ∀ l, ∀ conn ∈ (s'.loops l).pc.active,
      conn ∈ (s.loops l).pc.active ∨ conn ∈ (s.loops l).channels_) : Polled s' := by
  refine ⟨fun l conn hmem hdestroyed => ?_, fun l hl conn hmem => ?_⟩
  · rw [hchannels] at hmem
    exact h.channel l conn hmem (hexec l conn hdestroyed)
  · rw [hchannels]
    exact (hactive l conn hmem).elim (h.active l (halive ∘ hl) conn) id

/-- The other threads touch no poller. -/
theorem move (h : Polled s) (held : List (Conn n)) (calls : List (Call n))
    (state_ : Conn n → StateE) : Polled { s with held, calls, state_ } := ⟨h.channel, h.active⟩

/-- A loop takes up no event but of a connection that it polls. -/
theorem setLoop (h : Polled s) (l : LoopId n) (f : Loop n → Loop n)
    (hchannels : (f (s.loops l)).channels_ = (s.loops l).channels_)
    (hactive : ∀ conn ∈ (f (s.loops l)).pc.active,
      conn ∈ (s.loops l).pc.active ∨ conn ∈ (s.loops l).channels_) : Polled (s.setLoop l f) := by
  refine h.of_eq (fun l' => ?_) (fun _ _ => id) id fun l' conn hmem => ?_
  · rw [State.loops_setLoop]
    split
    · next heq => rw [heq, hchannels]
    · rfl
  · rw [State.loops_setLoop] at hmem
    split at hmem
    · next heq =>
      subst heq
      exact hactive conn hmem
    · exact Or.inl hmem

theorem emit (h : Polled s) {e : Event n}
    (he : ∀ thread conn, e ≠ .executed thread (.connectDestroyed conn)) : Polled (s.emit e) := by
  refine h.of_eq (fun _ => rfl) (fun l conn hmem => ?_) id (fun _ _ => Or.inl)
  rw [mem_executed] at hmem ⊢
  have hne := (he l conn).symm
  simpa [hne] using hmem

theorem queueInLoop (h : Polled s) (l : LoopId n) (cb : Functor n) :
    Polled (s.queueInLoop l cb) := h.setLoop l _ rfl fun _ => Or.inl

theorem removeConnectionInLoop (h : Polled s) (conn : Conn n) :
    Polled (s.removeConnectionInLoop conn) := by
  unfold State.removeConnectionInLoop
  split
  · exact h
  · have herase : Polled { s with connections_ := s.connections_.erase conn.name_ } :=
      ⟨h.channel, h.active⟩
    exact herase.queueInLoop _ _

theorem connectEstablished (h : Polled s) (conn : Conn n)
    (hnew : .connectDestroyed conn ∉ executed conn.loop_ s.trace) :
    Polled (s.connectEstablished conn) := by
  refine ⟨fun l c hmem => ?_, fun l hl c hmem => ?_⟩
  · simp only [State.connectEstablished, State.loops_setLoop, State.loops_setState] at hmem
    split at hmem
    · next heq =>
      subst heq
      obtain rfl | hmem := List.mem_cons.mp hmem
      · exact hnew
      · exact h.channel conn.loop_ c hmem
    · exact h.channel l c hmem
  · simp only [State.connectEstablished, State.loops_setLoop, State.loops_setState] at hmem ⊢
    split at hmem
    · next heq =>
      subst heq
      rw [if_pos rfl]
      exact List.mem_cons_of_mem conn (h.active conn.loop_ hl c hmem)
    · next hne =>
      rw [if_neg hne]
      exact h.active l hl c hmem

/-- The loop handles no event now, or the destructor runs on its thread. -/
theorem callDestroy (h : Polled s) (conn : Conn n)
    (hactive : (conn.loop_ = none → s.life = .alive) → (s.loops conn.loop_).pc.active = []) :
    Polled (s.call conn.loop_ (.connectDestroyed conn)) := by
  refine ⟨fun l c hmem hdestroyed => ?_, fun l hl c hmem => ?_⟩
  · simp only [State.call, State.run, State.connectDestroyed, State.loops_setLoop,
      State.loops_setState, State.loops_emit] at hmem
    rw [State.trace_call, executed_append, executed_executed] at hdestroyed
    split at hmem
    · next heq =>
      subst heq
      obtain ⟨hmem, hne⟩ := List.mem_filter.mp hmem
      have hne : c ≠ conn := of_decide_eq_true hne
      simp only [if_true, List.mem_append, List.mem_singleton, Functor.connectDestroyed.injEq,
        hne, or_false] at hdestroyed
      exact h.channel conn.loop_ c hmem hdestroyed
    · next hne =>
      rw [if_neg (Ne.symm hne), List.append_nil] at hdestroyed
      exact h.channel l c hmem hdestroyed
  · rw [(s.calls_call conn.loop_ (.connectDestroyed conn)).pc] at hmem
    by_cases heq : l = conn.loop_
    · subst heq
      rw [hactive hl] at hmem
      cases hmem
    · simp only [State.call, State.run, State.connectDestroyed, State.loops_setLoop, if_neg heq,
        State.loops_setState, State.loops_emit]
      exact h.active l hl c hmem

/-- A loop executes a functor out of its batch, or the base loop one about its own connection. -/
theorem call (h : Polled s) {thread : LoopId n} {cb : Functor n}
    (hseq : Sequenced (s.call thread cb))
    (hown : ∀ conn, cb = .connectEstablished conn ∨ cb = .connectDestroyed conn →
      conn.loop_ = thread)
    (hactive : ∀ conn, cb = .connectDestroyed conn → (thread = none → s.life = .alive) →
      (s.loops thread).pc.active = []) (hrevive : ¬ cb.Revives s) : Polled (s.call thread cb) := by
  cases cb with
  | connectEstablished conn =>
    obtain rfl := hown conn (Or.inl rfl)
    refine (h.emit (by simp)).connectEstablished conn ?_
    have hjust := (hseq.ordered conn.loop_).left
    rw [State.trace_call, executed_append, executed_executed, if_pos rfl] at hjust
    simpa using connectDestroyed_notMem hjust
  | connectDestroyed conn =>
    obtain rfl := hown conn (Or.inr rfl)
    exact h.callDestroy conn (hactive conn rfl)
  | removeConnectionInLoop conn => exact (h.emit (by simp)).removeConnectionInLoop conn
  | sendInLoop conn enables =>
    rw [State.call_sendInLoop thread hrevive]
    exact h.emit (by simp)
  | shutdownInLoop | user => exact h.emit (by simp)

theorem removeConnection (h : Polled s) (thread : LoopId n) (conn : Conn n) :
    Polled (s.removeConnection thread conn) := by
  have hemit : Polled (s.emit (.removeConnection thread conn)) := h.emit (by simp)
  unfold State.removeConnection State.runInLoop
  dsimp only
  split
  · exact hemit
  · split
    · exact (hemit.emit (by simp)).removeConnectionInLoop conn
    · exact hemit.queueInLoop _ _

theorem newConnection (h : Polled s) (hseq : Sequenced s.newConnection) :
    Polled s.newConnection := by
  have hregister : Polled (s.register s.newConn) :=
    h.of_eq (fun _ => rfl) (fun l conn hmem => by simpa [State.register, executed] using hmem) id
      (fun _ _ => Or.inl)
  unfold State.newConnection State.runInLoop at hseq ⊢
  split
  · next hbase =>
    rw [if_pos hbase] at hseq
    refine hregister.call hseq ?_ (by simp) id
    rintro conn (heq | heq)
    · obtain rfl := Functor.connectEstablished.inj heq
      exact hbase.symm
    · cases heq
  · exact hregister.queueInLoop _ _

theorem loopStep (h : Polled s) (hk : Known s) {l : LoopId n} (hs : LoopStep s l s')
    (hseq : Sequenced s') (hrevive : ∀ cb ∈ (s.loops l).pc.functors.head?, ¬ cb.Revives s) :
    Polled s' := by
  cases hs with
  | stop hpc hquit => exact (h.setLoop l _ rfl (by simp [LoopPc.active])).emit (by simp)
  | poll hpc | endBatch hpc | swap hpc => exact h.setLoop l _ rfl (by simp [LoopPc.active])
  | pollReturn active hpc hactive =>
    exact h.setLoop l _ rfl fun conn hmem => Or.inr (hactive conn hmem)
  | handleEvent conn rest hpc =>
    exact h.setLoop l _ rfl fun c hmem => Or.inl (by simp_all [LoopPc.active])
  | beginClose conn rest hpc =>
    refine (h.move s.held s.calls _).setLoop l _ rfl fun c hmem => Or.inl ?_
    simp_all [LoopPc.active]
  | close conn rest pc state_ hpc hnext hstate =>
    have hclosed : Polled { s.removeConnection l conn with state_ } :=
      (h.removeConnection l conn).move _ _ state_
    refine hclosed.setLoop l _ rfl fun c hmem => Or.inl ?_
    rw [(s.calls_removeConnection l conn).pc, hpc]
    obtain rfl | rfl := hnext
    · exact hmem
    · exact List.mem_cons_of_mem conn hmem
  | runFunctor functor rest hpc =>
    have hbelongs : Belongs s.trace l functor :=
      hk.functor l functor (by simp [Loop.queue, LoopPc.functors, hpc])
    have hpop : Polled (s.setPc l (.batch rest)) := h.setLoop l _ rfl (by simp [LoopPc.active])
    refine hpop.call hseq ?_ (fun _ _ _ => ?_) fun hnew => ?_
    · rintro conn (rfl | rfl)
      · exact hbelongs.2
      · exact hbelongs.2
    · simp [State.setPc, State.loops_setLoop, LoopPc.active]
    · exact hrevive functor (by rw [hpc]; rfl) (hnew.of_setPc)

/-- The destructor is on its way. -/
theorem setLife (h : Polled s) {life : Life n} (hlife : life ≠ .alive) :
    Polled { s with life } :=
  h.of_eq (fun _ => rfl) (fun _ _ => id) (fun halive => absurd halive hlife) (fun _ _ => Or.inl)

theorem step (h : Polled s) (hk : Known s) {a : Action n} (hguard : Sheltered s a)
    (hs : step s a = some s') (hseq : Sequenced s') : Polled s' := by
  cases Step.of_step hs with
  | loop l a _ hfree hs => exact h.loopStep hk hs hseq fun cb hcb => (hguard cb hcb).2
  | accept active hpc halive => exact h.newConnection hseq
  | queueUser l => exact h.queueInLoop l _
  | user a _ hs =>
    cases hs with
    | move held calls state_ => exact h.move held calls state_
    | queue c => exact (h.move s.held (s.calls.erase c) s.state_).queueInLoop _ _
  | destructor halive => exact (h.setLife (by simp)).emit (by simp)
  | destroyItem conn items hlife hmem =>
    have hvisit : Polled { s with life := .destroying (items.erase conn) } := h.setLife (by simp)
    unfold State.runInLoop
    split
    · next hbase =>
      rw [hbase]
      exact hvisit.callDestroy conn fun hl => by cases hl hbase.symm
    · exact hvisit.queueInLoop _ _
  | endBody hlife => exact h.setLife (by simp)
  | quitLoop i hlife =>
    have hjoining : Polled { s with life := .joining i } := h.setLife (by simp)
    exact hjoining.setLoop _ _ rfl fun _ => Or.inl
  | joinLoop i hlife hpc => exact h.setLife (by simp)
  | finish hlife => exact (h.setLife (by simp)).emit (by simp)

end Polled

/-! ## Owners -/

/-- What the owners of connections can rely on in every state that a server reaches. -/
structure Attended (s : State n) : Prop where
  sound : Sound s
  polled : Polled s
  kept : s.accepts < 2 ^ 31 → Kept s

theorem accepts_le_of_step {a : Action n} (hs : step s a = some s') : s.accepts ≤ s'.accepts := by
  cases Step.of_step hs with
  | loop l a _ hfree hs => exact Nat.le_of_eq hs.frame.2.2.2.symm
  | accept active hpc halive =>
    have hcalls := (s.register s.newConn).calls_runInLoop none s.newConn.loop_
      (.connectEstablished s.newConn)
    exact (Nat.le_succ _).trans (Nat.le_of_eq hcalls.accepts.symm)
  | destroyItem conn items hlife hmem =>
    rw [(State.calls_runInLoop _ none conn.loop_ (.connectDestroyed conn)).accepts]
  | user a _ hs => exact Nat.le_of_eq (Quiet.userStep hs).accepts.symm
  | queueUser | destructor | endBody | quitLoop | joinLoop | finish => exact Nat.le_refl _

theorem Attended.step (s : State n) (a : Action n) (s' : State n) (h : Attended s)
    (hguard : Sheltered s a) (hs : step s a = some s') : Attended s' := by
  have hsound := Sound.step s a s' h.sound hs
  refine ⟨hsound, h.polled.step h.sound.known hguard hs hsound.sequenced, fun haccepts => ?_⟩
  have hfew : s.accepts < 2 ^ 31 := Nat.lt_of_le_of_lt (accepts_le_of_step hs) haccepts
  exact (h.kept hfew).step h.sound.registered hfew hs

end CppInOne.Mymuduo.TcpServer
