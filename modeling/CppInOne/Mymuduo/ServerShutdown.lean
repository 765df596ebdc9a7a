import CppInOne.Mymuduo.ConnectionRegistry

/-!
# The shutdown of a server

The destructor of a server hands `connectDestroyed` of every connection to its loop, and
later the destructor of the thread pool stores `quit_` and joins the threads. A loop takes
its queue out before it tests `quit_`, so a functor queued behind that swap is executed only
if the loop comes round once more.

## Main results

- `destroyed_before_return` — nothing is stranded when `quit_` comes in time
- `strandedRun_returns` — a connection that its loop never destroys
-/

namespace CppInOne.Mymuduo.TcpServer
open Transition Trace

variable {n : Nat} {s s' : State n}

/-- The connections that were in `connections_` when the destructor began. -/
def found (t : List (Event n)) : List (Conn n) :=
  t.flatMap fun
    | .destructor items => items
    | _ => []

/-- A loop returns only after it has destroyed every connection that the destructor found. -/
def DestroyedBefore (pre : List (Event n)) : Event n → Prop
  | .loopReturned l => ∀ conn ∈ found pre, conn.loop_ = l →
    .executed l (.connectDestroyed conn) ∈ pre
  | _ => True

/-- The loop takes its queue out before it tests `quit_` again. -/
def LoopPc.swapAhead : LoopPc n → Bool
  | .poll | .dispatch _ | .handleClose _ _ => true
  | .check | .batch _ | .stopped => false

/-- `quit_` of a sub-loop is stored while the loop still has a swap ahead, or when no
`connectDestroyed` of the destructor is waiting in its queue. -/
def InTime (s : State n) : Action n → Prop
  | .quitLoop => ∀ i : Fin n, s.life = .quitting i → (s.loops (some i)).pc.swapAhead = true ∨
    ∀ conn ∈ found s.trace, .connectDestroyed conn ∉ (s.loops (some i)).pendingFunctors_
  | _ => True

instance (s : State n) : ∀ a, Decidable (InTime s a)
  | .quitLoop => inferInstanceAs (Decidable (∀ i : Fin n, s.life = .quitting i →
      (s.loops (some i)).pc.swapAhead = true ∨ ∀ conn ∈ found s.trace,
        .connectDestroyed conn ∉ (s.loops (some i)).pendingFunctors_))
  | .loop _ _ | .accept | .queueUser _ | .user _ | .destructor | .destroyItem _ | .endBody
  | .joinLoop | .finish => .isTrue trivial

/-! ## Functors on their way -/

/-- The functor is executed, or will be before the loop tests `quit_` again. -/
def OnWay (s : State n) (l : LoopId n) (cb : Functor n) : Prop :=
  cb ∈ executed l s.trace ∨ cb ∈ (s.loops l).pc.functors ∨
    cb ∈ (s.loops l).pendingFunctors_ ∧ (s.loops l).pc.swapAhead = true

/-- No functor is lost or falls back, and nothing of the destructor happens. -/
structure Forward (s s' : State n) : Prop where
  script : ∀ l, ∀ cb ∈ s.script l, cb ∈ s'.script l
  onWay : ∀ l cb, OnWay s l cb → OnWay s' l cb
  quit : ∀ l, (s'.loops l).quit_ = (s.loops l).quit_
  life : s'.life = s.life
  found : found s'.trace = found s.trace
  justified : Justified DestroyedBefore s.trace → Justified DestroyedBefore s'.trace

namespace Forward

variable {s₁ s₂ s₃ : State n}

theorem refl (s : State n) : Forward s s :=
  ⟨fun _ _ => id, fun _ _ => id, fun _ => rfl, rfl, rfl, id⟩

theorem trans (h : Forward s₁ s₂) (h' : Forward s₂ s₃) : Forward s₁ s₃ where
  script l cb hmem := h'.script l cb (h.script l cb hmem)
  onWay l cb hway := h'.onWay l cb (h.onWay l cb hway)
  quit l := (h'.quit l).trans (h.quit l)
  life := h'.life.trans h.life
  found := h'.found.trans h.found
  justified hjust := h'.justified (h.justified hjust)

/-- A change of one loop that drops no functor and takes none out of the coming swap. -/
theorem setLoop (s : State n) (l : LoopId n) (f : Loop n → Loop n)
    (hquit : (f (s.loops l)).quit_ = (s.loops l).quit_)
    (hfunctors : ∀ cb ∈ (s.loops l).pc.functors, cb ∈ (f (s.loops l)).pc.functors)
    (hpending : ∀ cb ∈ (s.loops l).pendingFunctors_, cb ∈ (f (s.loops l)).pc.functors ∨
      cb ∈ (f (s.loops l)).pendingFunctors_ ∧
        ((s.loops l).pc.swapAhead = true → (f (s.loops l)).pc.swapAhead = true)) :
    Forward s (s.setLoop l f) := by
  refine ⟨fun l' cb hmem => ?_, fun l' cb hway => ?_, fun l' => ?_, rfl, rfl, id⟩
  · simp only [State.script, Loop.queue, List.mem_append, State.trace_setLoop,
      State.loops_setLoop] at hmem ⊢
    split
    · next heq =>
      subst heq
      obtain hmem | hmem | hmem := hmem
      · exact Or.inl hmem
      · exact Or.inr (Or.inl (hfunctors cb hmem))
      · exact Or.inr ((hpending cb hmem).imp_right And.left)
    · exact hmem
  · simp only [OnWay, State.trace_setLoop, State.loops_setLoop] at hway ⊢
    split
    · next heq =>
      subst heq
      obtain hway | hway | ⟨hmem, hahead⟩ := hway
      · exact Or.inl hway
      · exact Or.inr (Or.inl (hfunctors cb hway))
      · exact Or.inr ((hpending cb hmem).imp_right fun h => ⟨h.1, h.2 hahead⟩)
    · exact hway
  · rw [State.loops_setLoop]
    split
    · next heq =>
      subst heq
      exact hquit
    · rfl

/-- A poller gets a channel or loses one. -/
theorem setChannels (s : State n) (l : LoopId n) (f : List (Conn n) → List (Conn n)) :
    Forward s (s.setLoop l fun loop => { loop with channels_ := f loop.channels_ }) := by
  apply setLoop s l fun loop => { loop with channels_ := f loop.channels_ }
  · rfl
  · exact fun cb hmem => hmem
  · exact fun cb hmem => Or.inr ⟨hmem, fun hahead => hahead⟩

/-- A loop moves on, not past its swap. -/
theorem setPc (s : State n) (l : LoopId n) {pc : LoopPc n}
    (hfunctors : ∀ cb ∈ (s.loops l).pc.functors, cb ∈ pc.functors)
    (hahead : (s.loops l).pc.swapAhead = true → pc.swapAhead = true) :
    Forward s (s.setPc l pc) :=
  setLoop s l _ rfl hfunctors fun _ hmem => Or.inr ⟨hmem, hahead⟩

theorem queueInLoop (s : State n) (l : LoopId n) (cb : Functor n) :
    Forward s (s.queueInLoop l cb) :=
  setLoop s l _ rfl (fun _ hmem => hmem)
    fun _ hmem => Or.inr ⟨List.mem_append_left _ hmem, fun h => h⟩

theorem emit (s : State n) {e : Event n} (hdtor : ∀ items, e ≠ .destructor items)
    (hreturn : ∀ l, e ≠ .loopReturned l) : Forward s (s.emit e) := by
  refine ⟨fun l cb hmem => ?_, fun l cb hway => ?_, fun _ => rfl, rfl, ?_,
    fun hjust => hjust.concat ?_⟩
  · simp only [State.script, State.trace_emit, executed_append, State.loops_emit,
      List.mem_append] at hmem ⊢
    exact hmem.imp_left Or.inl
  · simp only [OnWay, State.trace_emit, executed_append, State.loops_emit,
      List.mem_append] at hway ⊢
    exact hway.imp_left Or.inl
  · cases e with
    | destructor items => exact absurd rfl (hdtor items)
    | accepted | executed | removeConnection | destructed | loopReturned =>
      simp [TcpServer.found]
  · cases e with
    | loopReturned l => exact absurd rfl (hreturn l)
    | accepted | executed | removeConnection | destructor | destructed => trivial

/-- A change outside the loops and the trace. -/
theorem of_eq (hloops : s'.loops = s.loops) (htrace : s'.trace = s.trace)
    (hlife : s'.life = s.life) : Forward s s' := by
  refine ⟨fun l cb hmem => ?_, fun l cb hway => ?_, fun l => ?_, hlife, ?_, fun hjust => ?_⟩
  · rwa [State.script, hloops, htrace]
  · rwa [OnWay, hloops, htrace]
  · rw [hloops]
  · rw [htrace]
  · rwa [htrace]

theorem move (s : State n) (held : List (Conn n)) (calls : List (Call n))
    (state_ : Conn n → StateE) : Forward s { s with held, calls, state_ } := of_eq rfl rfl rfl

theorem run (s : State n) (cb : Functor n) : Forward s (s.run cb) := by
  cases cb with
  | connectEstablished conn =>
    exact (move s s.held s.calls _).trans
      (setChannels _ conn.loop_ fun channels_ => conn :: channels_)
  | connectDestroyed conn =>
    exact (move s s.held s.calls _).trans
      (setChannels _ conn.loop_ fun channels_ => channels_.filter (· ≠ conn))
  | removeConnectionInLoop conn =>
    show Forward s (s.removeConnectionInLoop conn)
    unfold State.removeConnectionInLoop
    split
    · exact refl s
    · have herase : Forward s { s with connections_ := s.connections_.erase conn.name_ } :=
        of_eq rfl rfl rfl
      exact herase.trans (queueInLoop _ _ _)
  | sendInLoop conn enables =>
    show Forward s (s.sendInLoop conn enables)
    unfold State.sendInLoop
    split
    · exact refl s
    · exact setChannels s conn.loop_ fun channels_ => conn :: channels_
  | shutdownInLoop | user => exact refl s

theorem call (s : State n) (thread : LoopId n) (cb : Functor n) :
    Forward s (s.call thread cb) := (emit s (by simp) (by simp)).trans (run _ cb)

theorem runInLoop (s : State n) (thread l : LoopId n) (cb : Functor n) :
    Forward s (s.runInLoop thread l cb) := by
  unfold State.runInLoop
  split
  · exact call s thread cb
  · exact queueInLoop s l cb

theorem removeConnection (s : State n) (thread : LoopId n) (conn : Conn n) :
    Forward s (s.removeConnection thread conn) := by
  have hemit : Forward s (s.emit (.removeConnection thread conn)) :=
    emit s (by simp) (by simp)
  unfold State.removeConnection
  dsimp only
  split
  · exact hemit
  · exact hemit.trans (runInLoop _ _ _ _)

theorem newConnection (s : State n) : Forward s s.newConnection := by
  have hemit : Forward s (s.emit (.accepted s.newConn)) := emit s (by simp) (by simp)
  have hregister : Forward (s.emit (.accepted s.newConn)) (s.register s.newConn) :=
    of_eq rfl rfl rfl
  exact (hemit.trans hregister).trans (runInLoop _ _ _ _)

/-- A functor leaves the batch and is recorded as executed. -/
theorem pop {l : LoopId n} {functor : Functor n} {rest : List (Functor n)}
    (hpc : (s.loops l).pc = .batch (functor :: rest)) :
    Forward s ((s.setPc l (.batch rest)).emit (.executed l functor)) := by
  have hscript : ∀ l', ((s.setPc l (.batch rest)).emit (.executed l functor)).script l' =
      s.script l' := by
    intro l'
    by_cases heq : l' = l
    · subst heq
      simp [State.script, State.setPc, State.loops_setLoop, Loop.queue, LoopPc.functors, hpc]
    · simp [State.script, State.setPc, State.loops_setLoop, heq, Ne.symm heq]
  refine ⟨fun l' cb hmem => ?_, fun l' cb hway => ?_, fun l' => ?_, rfl, ?_,
    fun hjust => hjust.concat trivial⟩
  · rwa [hscript]
  · by_cases heq : l' = l
    · subst heq
      simp only [OnWay, hpc, LoopPc.functors, LoopPc.swapAhead, List.mem_cons] at hway
      simp only [OnWay, State.trace_emit, executed_append, executed_executed, State.loops_emit,
        State.setPc, State.trace_setLoop, State.loops_setLoop, LoopPc.functors,
        List.mem_append, if_true, List.mem_singleton]
      obtain hway | (rfl | hway) | ⟨-, hfalse⟩ := hway
      · exact Or.inl (Or.inl hway)
      · exact Or.inl (Or.inr rfl)
      · exact Or.inr (Or.inl hway)
      · cases hfalse
    · simpa [OnWay, State.setPc, State.loops_setLoop, heq, Ne.symm heq] using hway
  · by_cases heq : l' = l
    · subst heq
      simp [State.setPc, State.loops_setLoop]
    · simp [State.setPc, State.loops_setLoop, heq]
  · simp [State.setPc, TcpServer.found]

/-- Every step of a loop but its return. -/
theorem loopStep {l : LoopId n} (hs : LoopStep s l s') :
    Forward s s' ∨ (s.loops l).pc = .check ∧ (s.loops l).quit_ = true ∧
      s' = (s.setPc l .stopped).emit (.loopReturned l) := by
  cases hs with
  | stop hpc hquit => exact Or.inr ⟨hpc, hquit, rfl⟩
  | poll hpc => exact Or.inl (setPc s l (by simp [hpc, LoopPc.functors]) fun _ => rfl)
  | pollReturn active hpc hactive =>
    exact Or.inl (setPc s l (by simp [hpc, LoopPc.functors]) fun _ => rfl)
  | handleEvent conn rest hpc =>
    exact Or.inl (setPc s l (by simp [hpc, LoopPc.functors]) fun _ => rfl)
  | beginClose conn rest hpc =>
    refine Or.inl ((move s s.held s.calls _).trans (setPc _ l ?_ fun _ => rfl))
    simp [hpc, LoopPc.functors]
  | close conn rest pc state_ hpc hnext hstate =>
    have hclosed : Forward s { s.removeConnection l conn with state_ } :=
      (removeConnection s l conn).trans (move _ _ _ state_)
    refine Or.inl (hclosed.trans (setPc _ l ?_ fun _ => ?_))
    · simp [(s.calls_removeConnection l conn).pc, hpc, LoopPc.functors]
    · obtain rfl | rfl := hnext <;> rfl
  | swap hpc =>
    refine Or.inl (setLoop s l _ rfl ?_ fun cb hmem => Or.inl hmem)
    simp [hpc, LoopPc.functors]
  | runFunctor functor rest hpc =>
    exact Or.inl ((pop hpc).trans (run _ functor))
  | endBatch hpc =>
    exact Or.inl (setPc s l (by simp [hpc, LoopPc.functors]) (by simp [hpc, LoopPc.swapAhead]))

theorem userStep (hs : UserStep s s') : Forward s s' := by
  cases hs with
  | move held calls state_ => exact move s held calls state_
  | queue c => exact (move s s.held (s.calls.erase c) s.state_).trans (queueInLoop _ _ _)

end Forward

/-! ## The destructor -/

/-- The destructor found this connection and has visited it. -/
def Visited (s : State n) (conn : Conn n) : Prop :=
  conn ∈ found s.trace ∧ ∀ items, s.life = .destroying items → conn ∉ items

structure Draining (s : State n) : Prop where
  alive : s.life = .alive → found s.trace = []
  handed : ∀ conn, Visited s conn → .connectDestroyed conn ∈ s.script conn.loop_
  quit : ∀ l, (s.loops l).quit_ = true → s.life ≠ .alive ∧ ∀ items, s.life ≠ .destroying items
  onWay : ∀ conn, Visited s conn → (s.loops conn.loop_).quit_ = true →
    OnWay s conn.loop_ (.connectDestroyed conn)
  justified : Justified DestroyedBefore s.trace

theorem draining_start (n : Nat) (nameArg : List UInt8) (listenAddr : InetAddress) :
    Draining (start n nameArg listenAddr) := by
  refine ⟨fun _ => rfl, ?_, ?_, ?_, justified_nil⟩ <;> simp [start, Visited, found]

namespace Draining

theorem forward (h : Draining s) (hf : Forward s s') : Draining s' := by
  have hvisited : ∀ conn, Visited s' conn → Visited s conn := by
    rintro conn ⟨hmem, hrest⟩
    rw [hf.life] at hrest
    exact ⟨hf.found ▸ hmem, hrest⟩
  refine ⟨fun halive => ?_, fun conn hconn => ?_, fun l hquit => ?_,
    fun conn hconn hquit => ?_, hf.justified h.justified⟩
  · rw [hf.life] at halive
    rw [hf.found]
    exact h.alive halive
  · exact hf.script _ _ (h.handed conn (hvisited conn hconn))
  · rw [hf.quit] at hquit
    rw [hf.life]
    exact h.quit l hquit
  · rw [hf.quit] at hquit
    exact hf.onWay _ _ (h.onWay conn (hvisited conn hconn) hquit)

/-- The life of the server goes on, and what is visited is handed over. -/
theorem setLife (h : Draining s) {life : Life n} (halive : life ≠ .alive)
    (hbody : ∀ items, life = .destroying items → ∃ items', s.life = .destroying items')
    (hhanded : ∀ conn, Visited { s with life } conn → Visited s conn ∨
      .connectDestroyed conn ∈ s.script conn.loop_ ∧ (s.loops conn.loop_).quit_ ≠ true) :
    Draining { s with life } := by
  refine ⟨fun heq => absurd heq halive, fun conn hconn => ?_, fun l hquit => ⟨halive, ?_⟩,
    fun conn hconn hquit => ?_, h.justified⟩
  · exact (hhanded conn hconn).elim (h.handed conn) And.left
  · intro items heq
    obtain ⟨items', hlife⟩ := hbody items heq
    exact (h.quit l hquit).2 items' hlife
  · obtain hold | ⟨-, hrunning⟩ := hhanded conn hconn
    · exact h.onWay conn hold hquit
    · exact absurd hquit hrunning

/-- `quit_` lets a loop return only when its connections are destroyed. -/
theorem loopReturned (h : Draining s) {l : LoopId n} (hpc : (s.loops l).pc = .check)
    (hquit : (s.loops l).quit_ = true) :
    Draining ((s.setPc l .stopped).emit (.loopReturned l)) := by
  have hf : Forward s (s.setPc l .stopped) :=
    Forward.setPc s l (by simp [hpc, LoopPc.functors]) (by simp [hpc, LoopPc.swapAhead])
  have hstopped := h.forward hf
  have hjust : DestroyedBefore s.trace (.loopReturned l) := by
    rintro conn hfound rfl
    obtain ⟨-, hbody⟩ := h.quit conn.loop_ hquit
    have hvisited : Visited s conn := ⟨hfound, fun rest hrest => absurd hrest (hbody rest)⟩
    obtain hdone | hmem | ⟨-, hahead⟩ := h.onWay conn hvisited hquit
    · exact mem_executed.mp hdone
    · simp [hpc, LoopPc.functors] at hmem
    · simp [hpc, LoopPc.swapAhead] at hahead
  have hquiet : ∀ l', executed l' [Event.loopReturned l] = [] := fun _ => rfl
  have hfound : found ((s.setPc l .stopped).emit (.loopReturned l)).trace = found s.trace := by
    simp [found, State.setPc]
  have hvisited : ∀ conn, Visited ((s.setPc l .stopped).emit (.loopReturned l)) conn →
      Visited (s.setPc l .stopped) conn := by
    rintro conn ⟨hmem, hrest⟩
    exact ⟨hfound ▸ hmem, hrest⟩
  refine ⟨fun halive => hfound.trans (hstopped.alive halive), fun conn hconn => ?_,
    hstopped.quit, fun conn hconn hq => ?_, h.justified.concat hjust⟩
  · have hold := hstopped.handed conn (hvisited conn hconn)
    simpa [State.script, hquiet] using hold
  · have hold := hstopped.onWay conn (hvisited conn hconn) hq
    simpa [OnWay, hquiet] using hold

/-- The destructor has found its connections and visited none of them. -/
theorem destructor (h : Draining s) (halive : s.life = .alive) (items : List (Conn n)) :
    Draining ({ s with life := .destroying items }.emit (.destructor items)) := by
  have hnone : ∀ conn,
      ¬ Visited ({ s with life := .destroying items }.emit (.destructor items)) conn := by
    rintro conn ⟨hmem, hrest⟩
    have hold := h.alive halive
    have hfound : found (s.trace ++ [.destructor items]) = items := by
      simpa [found] using hold
    exact hrest items rfl (hfound ▸ hmem)
  refine ⟨fun heq => ?_, fun conn hconn => absurd hconn (hnone conn),
    fun l hquit => absurd halive (h.quit l hquit).1, fun conn hconn => absurd hconn (hnone conn),
    h.justified.concat trivial⟩
  cases heq

/-- One connection is handed to its loop. -/
theorem destroyItem (h : Draining s) {conn : Conn n} {items : List (Conn n)}
    (hlife : s.life = .destroying items) :
    Draining ({ s with life := .destroying (items.erase conn) }.runInLoop none conn.loop_
      (.connectDestroyed conn)) := by
  have hhanded : .connectDestroyed conn ∈
      (s.runInLoop none conn.loop_ (.connectDestroyed conn)).script conn.loop_ := by
    unfold State.runInLoop
    split
    · next heq =>
      rw [← heq]
      refine List.mem_append_left _ ?_
      simp [State.trace_call]
    · refine List.mem_append_right _ ?_
      simp [State.queueInLoop, State.loops_setLoop, Loop.queue]
  have hcalls := s.calls_runInLoop none conn.loop_ (.connectDestroyed conn)
  have hcall := h.forward (Forward.runInLoop s none conn.loop_ (.connectDestroyed conn))
  have hcomm : { s with life := .destroying (items.erase conn) }.runInLoop none conn.loop_
      (.connectDestroyed conn) = { s.runInLoop none conn.loop_ (.connectDestroyed conn) with
        life := .destroying (items.erase conn) } := by
    unfold State.runInLoop
    split <;> rfl
  rw [hcomm]
  refine hcall.setLife (by simp) (fun _ _ => ⟨items, hcalls.life.trans hlife⟩) ?_
  rintro c ⟨hfound, hrest⟩
  by_cases heq : c = conn
  · subst heq
    refine Or.inr ⟨hhanded, fun hquit => ?_⟩
    exact (hcall.quit _ hquit).2 items (hcalls.life.trans hlife)
  · refine Or.inl ⟨hfound, fun items' hitems' => ?_⟩
    rw [hcalls.life, hlife] at hitems'
    cases hitems'
    intro hmem
    exact hrest _ rfl ((List.mem_erase_of_ne heq).mpr hmem)

/-- `quit` is called on a sub-loop in time. -/
theorem storeQuit (h : Draining s) (hlife : s.life ≠ .alive ∧ ∀ items, s.life ≠ .destroying items)
    (l : LoopId n) (hguard : (s.loops l).pc.swapAhead = true ∨
      ∀ conn ∈ found s.trace, .connectDestroyed conn ∉ (s.loops l).pendingFunctors_) :
    Draining (s.setLoop l fun loop => { loop with quit_ := true }) := by
  have hscript : ∀ l', (s.setLoop l fun loop => { loop with quit_ := true }).script l' =
      s.script l' := by
    intro l'
    simp only [State.script, State.trace_setLoop, State.loops_setLoop]
    split
    · next heq =>
      subst heq
      rfl
    · rfl
  have hway : ∀ l' cb, OnWay s l' cb →
      OnWay (s.setLoop l fun loop => { loop with quit_ := true }) l' cb := by
    intro l' cb hold
    simp only [OnWay, State.trace_setLoop, State.loops_setLoop]
    split
    · next heq =>
      subst heq
      exact hold
    · exact hold
  refine ⟨fun halive => absurd halive hlife.1, fun conn hconn => ?_, fun _ _ => hlife,
    fun conn hconn hquit => hway _ _ ?_, h.justified⟩
  · rw [hscript]
    exact h.handed conn hconn
  · by_cases heq : conn.loop_ = l
    · subst heq
      -- what is still in the queue is covered by the guard
      obtain hdone | hqueue := List.mem_append.mp (h.handed conn hconn)
      · exact Or.inl hdone
      · obtain hbatch | hpending := List.mem_append.mp hqueue
        · exact Or.inr (Or.inl hbatch)
        · refine Or.inr (Or.inr ⟨hpending, hguard.resolve_right fun hnone => ?_⟩)
          exact hnone conn hconn.1 hpending
    · refine h.onWay conn hconn ?_
      rwa [State.loops_setLoop, if_neg heq] at hquit

theorem step (s : State n) (a : Action n) (s' : State n) (h : Draining s) (hguard : InTime s a)
    (hs : step s a = some s') : Draining s' := by
  cases Step.of_step hs with
  | loop l a _ hfree hs =>
    obtain hf | ⟨hpc, hquit, rfl⟩ := Forward.loopStep hs
    · exact h.forward hf
    · exact h.loopReturned hpc hquit
  | accept active hpc halive => exact h.forward (Forward.newConnection s)
  | queueUser l => exact h.forward (Forward.queueInLoop s l .user)
  | user a _ hs => exact h.forward (Forward.userStep hs)
  | destructor halive => exact h.destructor halive _
  | destroyItem conn items hlife hmem => exact h.destroyItem hlife
  | endBody hlife =>
    refine h.setLife (by simp) (by simp) ?_
    rintro conn ⟨hfound, -⟩
    refine Or.inl ⟨hfound, fun items hitems => ?_⟩
    rw [hlife] at hitems
    cases hitems
    exact List.not_mem_nil
  | quitLoop i hlife =>
    refine Draining.storeQuit (h.setLife (by simp) (by simp) ?_) (by simp) (some i)
      (hguard i hlife)
    exact fun conn hconn => Or.inl ⟨hconn.1, by simp [hlife]⟩
  | joinLoop i hlife hpc =>
    exact h.setLife (by simp) (by simp) fun conn hconn => Or.inl ⟨hconn.1, by simp [hlife]⟩
  | finish hlife =>
    refine (h.setLife (by simp) (by simp) ?_).forward (Forward.emit _ (by simp) (by simp))
    exact fun conn hconn => Or.inl ⟨hconn.1, by simp [hlife]⟩

end Draining

/-- **Nothing is stranded when `quit_` comes in time.** If the destructor of the thread pool
stores `quit_` of each sub-loop in time, no loop returns before it has destroyed each of its
connections that the destructor of the server found. -/
theorem destroyed_before_return (n : Nat) (nameArg : List UInt8) (listenAddr : InetAddress)
    (as : List (Action n)) (s : State n) (hrun : run step (start n nameArg listenAddr) as = some s)
    (hguard : Guarded step InTime (start n nameArg listenAddr) as) :
    Justified DestroyedBefore s.trace := by
  have hstart : Draining (start n nameArg listenAddr) := draining_start n nameArg listenAddr
  have hend : Draining s := run_invariant Draining.step hstart hguard hrun
  exact hend.justified

/-- A connection is accepted, and its loop has just executed `connectEstablished`. -/
def establishedRun : List (Action 1) :=
  [.loop none .testQuit, .loop none (.pollReturn []), .accept, .loop subLoop .testQuit,
    .loop subLoop (.pollReturn []), .loop subLoop .swapFunctors, .loop subLoop .runFunctor]

/-- The server is destroyed while the loop of the connection waits in `epoll_wait`. -/
def pollingRun : List (Action 1) :=
  establishedRun ++
    [.loop subLoop .endBatch, .loop subLoop .testQuit, .destructor,
      .destroyItem echoServer.newConn, .endBody, .quitLoop, .loop subLoop (.pollReturn []),
      .loop subLoop .swapFunctors, .loop subLoop .runFunctor, .loop subLoop .endBatch,
      .loop subLoop .testQuit, .joinLoop, .finish]

theorem pollingRun_destroys : ∃ s, run step echoServer pollingRun = some s ∧
    .destructed ∈ s.trace ∧ Justified DestroyedBefore s.trace := by
  refine ⟨_, rfl, by decide, ?_⟩
  have hrun : run step echoServer pollingRun = some _ := rfl
  exact destroyed_before_return 1 _ _ pollingRun _ hrun (by decide)

/-- The server is destroyed while the loop of the connection is still in the batch that
established it. -/
def strandedRun : List (Action 1) :=
  establishedRun ++
    [.destructor, .destroyItem echoServer.newConn, .endBody, .quitLoop,
      .loop subLoop .endBatch, .loop subLoop .testQuit, .joinLoop, .finish]

theorem strandedRun_returns : ∃ s, run step echoServer strandedRun = some s ∧
    s.trace = [.accepted echoServer.newConn,
      .executed (some 0) (.connectEstablished echoServer.newConn),
      .destructor [echoServer.newConn], .loopReturned (some 0), .destructed] ∧
    ¬ Justified DestroyedBefore s.trace := by
  refine ⟨_, rfl, rfl, fun hjust => ?_⟩
  have hreturn := hjust [.accepted echoServer.newConn,
    .executed (some 0) (.connectEstablished echoServer.newConn), .destructor [echoServer.newConn]]
    (.loopReturned (some 0)) [.destructed] rfl echoServer.newConn (by decide) rfl
  revert hreturn
  decide

end CppInOne.Mymuduo.TcpServer
