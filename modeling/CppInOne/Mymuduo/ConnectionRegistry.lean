import CppInOne.Mymuduo.TcpServer

/-!
# The connection registry of a server

`newConnection` registers a connection under a name of its own and starts it on its loop, a
close event takes it out on the base loop and ends it on its own. This file proves that the
registry is exact while the server lives, and that a loop never ends a connection before it
has started it.

## Main results

- `connName_inj` — fewer than `2 ^ 31` connections have different names
- `registry_exact` — the registry, and the order of the connection's functors
-/

namespace CppInOne.Mymuduo.TcpServer
open Transition Trace ByteString

variable {n : Nat} {s s' : State n}

/-! ## Names -/

theorem toIpPort_length_le (addr : InetAddress) : addr.toIpPort.length ≤ 21 := by
  have hbyte : ∀ b : UInt8, (decimal b.toNat).length ≤ 3 :=
    fun b => decimal_length_le (by omega) (Nat.lt_trans b.toNat_lt (by omega))
  obtain ⟨⟨a, b, c, d⟩, port⟩ := addr
  have hport := decimal_length_le (d := 5) (by omega) (Nat.lt_trans port.toNat_lt (by omega))
  have ha := hbyte a
  have hb := hbyte b
  have hc := hbyte c
  have hd := hbyte d
  have hdot : (ascii ".").length = 1 := rfl
  have hcolon : (ascii ":").length = 1 := rfl
  simp only [InetAddress.toIpPort, InetAddress.toIp, List.length_append, hdot, hcolon]
  omega

/-- The buffer of `newConnection` has room for every address and number. -/
theorem connName_eq (name_ : List UInt8) {ipPort_ : List UInt8} (hip : ipPort_.length ≤ 21)
    {k : Nat} (hk : k + 1 < 2 ^ 31) : State.connName name_ ipPort_ (.ofNat (k + 1)) =
      name_ ++ (ascii "-" ++ ipPort_ ++ ascii "#" ++ decimal (k + 1 : Nat)) := by
  have hlen := decimal_length_le (k := k + 1) (d := 10) (by omega) (by omega)
  have hdash : (ascii "-").length = 1 := rfl
  have hhash : (ascii "#").length = 1 := rfl
  rw [State.connName, Int32.toInt_ofNat_of_lt hk, snprintf, List.take_of_length_le]
  simp only [List.length_append, hdash, hhash]
  omega

/-- Fewer than `2 ^ 31` connections have different names. -/
theorem connName_inj {name_ ipPort_ : List UInt8} (hip : ipPort_.length ≤ 21) {j k : Nat}
    (hj : j + 1 < 2 ^ 31) (hk : k + 1 < 2 ^ 31)
    (h : State.connName name_ ipPort_ (.ofNat (j + 1)) =
      State.connName name_ ipPort_ (.ofNat (k + 1))) : j = k := by
  rw [connName_eq name_ hip hj, connName_eq name_ hip hk] at h
  have hnumber := List.append_cancel_left (List.append_cancel_left h)
  exact Nat.succ.inj (decimal_natCast_injective hnumber)

/-! ## What a loop executes and is going to execute -/

/-- A connection is established at most once, and destroyed only after that. -/
def Ordered (pre : List (Functor n)) : Functor n → Prop
  | .connectEstablished conn => .connectEstablished conn ∉ pre
  | .connectDestroyed conn => .connectEstablished conn ∈ pre
  | _ => True

structure Sequenced (s : State n) : Prop where
  ordered : ∀ l, Justified Ordered (s.script l)
  own : ∀ l conn, .connectEstablished conn ∈ s.script l ∨ .connectDestroyed conn ∈ s.script l →
    .accepted conn ∈ s.trace ∧ conn.loop_ = l
  begun : ∀ conn, .accepted conn ∈ s.trace → .connectEstablished conn ∈ s.script conn.loop_
  base : ∀ conn, .connectEstablished conn ∉ (s.loops none).queue
  ids : ∀ conn, .accepted conn ∈ s.trace → conn.id < s.accepts

theorem sequenced_start (n : Nat) (nameArg : List UInt8) (listenAddr : InetAddress) :
    Sequenced (start n nameArg listenAddr) := by
  refine ⟨fun l => justified_nil, ?_, ?_, ?_, ?_⟩ <;>
    simp [start, State.script, executed, Loop.queue, LoopPc.functors]

namespace Sequenced

/-- A step that changes no script. -/
theorem congr (h : Sequenced s) (hscript : ∀ l, s'.script l = s.script l)
    (hacc : ∀ conn, .accepted conn ∈ s'.trace ↔ .accepted conn ∈ s.trace)
    (hbase : ∀ conn, .connectEstablished conn ∈ (s'.loops none).queue →
      .connectEstablished conn ∈ (s.loops none).queue)
    (haccepts : s'.accepts = s.accepts) : Sequenced s' where
  ordered l := by
    rw [hscript]
    exact h.ordered l
  own l conn hmem := by
    rw [hscript] at hmem
    rw [hacc]
    exact h.own l conn hmem
  begun conn hmem := by
    rw [hscript]
    exact h.begun conn ((hacc conn).mp hmem)
  base conn hmem := h.base conn (hbase conn hmem)
  ids conn hmem := by
    rw [haccepts]
    exact h.ids conn ((hacc conn).mp hmem)

/-- A functor that starts no connection gets into a script, behind the start of its own. -/
theorem insert (h : Sequenced s) {l : LoopId n} (cb : Functor n) {t u : List (Functor n)}
    (hold : s.script l = t ++ u) (hnew : s'.script l = t ++ cb :: u)
    (hother : ∀ l' ≠ l, s'.script l' = s.script l')
    (hcb : ∀ conn, cb ≠ .connectEstablished conn)
    (hdestroy : ∀ conn, cb = .connectDestroyed conn →
      .accepted conn ∈ s.trace ∧ conn.loop_ = l ∧ .connectEstablished conn ∈ t)
    (hacc : ∀ conn, .accepted conn ∈ s'.trace ↔ .accepted conn ∈ s.trace)
    (hbase : ∀ conn, .connectEstablished conn ∈ (s'.loops none).queue →
      .connectEstablished conn ∈ (s.loops none).queue)
    (haccepts : s'.accepts = s.accepts) : Sequenced s' := by
  have hmem : ∀ l' conn, .connectEstablished conn ∈ s'.script l' ↔
      .connectEstablished conn ∈ s.script l' := by
    intro l' conn
    by_cases heq : l' = l
    · subst heq
      have hne := (hcb conn).symm
      simp [hold, hnew, hne]
    · rw [hother l' heq]
  refine ⟨fun l' => ?_, fun l' conn => ?_, fun conn hconn => ?_,
    fun conn hconn => h.base conn (hbase conn hconn), fun conn hconn => ?_⟩
  · by_cases heq : l' = l
    · subst heq
      rw [hnew]
      refine Justified.insert (hold ▸ h.ordered l') ?_ ?_
      · cases cb with
        | connectEstablished conn => exact absurd rfl (hcb conn)
        | connectDestroyed conn => exact (hdestroy conn rfl).2.2
        | removeConnectionInLoop | sendInLoop | shutdownInLoop | user => trivial
      · intro pre f _ hf
        -- the functor put in counts neither for nor against the later ones
        cases f with
        | connectEstablished conn =>
          have hne := (hcb conn).symm
          simpa [Ordered, hne] using hf
        | connectDestroyed conn =>
          have hne := (hcb conn).symm
          simpa [Ordered, hne] using hf
        | removeConnectionInLoop | sendInLoop | shutdownInLoop | user => trivial
    · rw [hother l' heq]
      exact h.ordered l'
  · rw [hmem, hacc]
    rintro (hest | hdes)
    · exact h.own l' conn (Or.inl hest)
    · by_cases heq : l' = l
      · subst heq
        rw [hnew] at hdes
        obtain hdes | hdes := List.mem_append.mp hdes
        · exact h.own l' conn (Or.inr (hold ▸ List.mem_append_left _ hdes))
        · obtain hdes | hdes := List.mem_cons.mp hdes
          · obtain ⟨hconn, hloop, -⟩ := hdestroy conn hdes.symm
            exact ⟨hconn, hloop⟩
          · exact h.own l' conn (Or.inr (hold ▸ List.mem_append_right _ hdes))
      · rw [hother l' heq] at hdes
        exact h.own l' conn (Or.inr hdes)
  · rw [hmem]
    exact h.begun conn ((hacc conn).mp hconn)
  · rw [haccepts]
    exact h.ids conn ((hacc conn).mp hconn)

/-- A functor that starts no connection is queued. -/
theorem queueInLoop (h : Sequenced s) {l : LoopId n} (cb : Functor n)
    (hcb : ∀ conn, cb ≠ .connectEstablished conn) (hbelongs : Belongs s.trace l cb) :
    Sequenced (s.queueInLoop l cb) := by
  refine h.insert (l := l) cb (t := s.script l) (u := []) (List.append_nil _).symm ?_ ?_
    hcb ?_ (fun _ => Iff.rfl) ?_ rfl
  · simp [State.script, State.queueInLoop, State.loops_setLoop, Loop.queue]
  · intro l' hne
    simp [State.script, State.queueInLoop, State.loops_setLoop, hne]
  · rintro conn rfl
    obtain ⟨hacc, rfl⟩ := hbelongs
    exact ⟨hacc, rfl, h.begun conn hacc⟩
  · intro conn hmem
    simp only [State.queueInLoop, State.loops_setLoop] at hmem
    split at hmem
    · next heq =>
      subst heq
      have hne := (hcb conn).symm
      simpa [Loop.queue, hne] using hmem
    · exact hmem

/-- The base loop executes a functor that was not queued. -/
theorem execute (h : Sequenced s) {cb : Functor n} (hcb : ∀ conn, cb ≠ .connectEstablished conn)
    (hdestroy : ∀ conn, cb = .connectDestroyed conn →
      .accepted conn ∈ s.trace ∧ conn.loop_ = none) : Sequenced (s.emit (.executed none cb)) := by
  refine h.insert (l := none) cb (t := executed none s.trace) (u := (s.loops none).queue)
    rfl ?_ ?_ hcb ?_ ?_ (fun conn hmem => hmem) rfl
  · simp [State.script]
  · intro l' hne
    simp [State.script, hne.symm]
  · intro conn hconn
    obtain ⟨hacc, hloop⟩ := hdestroy conn hconn
    have hbegun := h.begun conn hacc
    rw [hloop] at hbegun
    exact ⟨hacc, hloop, (List.mem_append.mp hbegun).resolve_right (h.base conn)⟩
  · intro conn
    simp

/-- A loop moves on without executing anything, or takes its queue out. -/
theorem setLoop (h : Sequenced s) (l : LoopId n) (f : Loop n → Loop n)
    (hqueue : (f (s.loops l)).queue = (s.loops l).queue) : Sequenced (s.setLoop l f) := by
  have hloops : ∀ l', ((s.setLoop l f).loops l').queue = (s.loops l').queue := by
    intro l'
    rw [State.loops_setLoop]
    split
    · next heq => rw [heq, hqueue]
    · rfl
  refine h.congr (fun l' => ?_) (fun _ => Iff.rfl) (fun conn hmem => ?_) rfl
  · rw [State.script, State.script, hloops, State.trace_setLoop]
  · rwa [hloops] at hmem

theorem emit (h : Sequenced s) {e : Event n} (hexec : ∀ l, executed l [e] = [])
    (hacc : ∀ conn, e ≠ .accepted conn) : Sequenced (s.emit e) := by
  refine h.congr (fun l => ?_) (fun conn => ?_) (fun conn hmem => hmem) rfl
  · simp [State.script, hexec]
  · have hne := (hacc conn).symm
    simp [hne]

/-- The other threads touch no script. -/
theorem move (h : Sequenced s) (held : List (Conn n)) (calls : List (Call n))
    (state_ : Conn n → StateE) : Sequenced { s with held, calls, state_ } :=
  ⟨h.ordered, h.own, h.begun, h.base, h.ids⟩

/-- What a functor does once it is executed. -/
theorem run (h : Sequenced s) (cb : Functor n) (hcb : FunctorKnown s.trace cb) :
    Sequenced (s.run cb) := by
  cases cb with
  | connectEstablished conn =>
    exact (h.move s.held s.calls _).setLoop conn.loop_
      (fun loop => { loop with channels_ := conn :: loop.channels_ }) rfl
  | connectDestroyed conn =>
    exact (h.move s.held s.calls _).setLoop conn.loop_
      (fun loop => { loop with channels_ := loop.channels_.filter (· ≠ conn) }) rfl
  | removeConnectionInLoop conn =>
    show Sequenced (s.removeConnectionInLoop conn)
    unfold State.removeConnectionInLoop
    split
    · exact h
    · have herase : Sequenced { s with connections_ := s.connections_.erase conn.name_ } :=
        ⟨h.ordered, h.own, h.begun, h.base, h.ids⟩
      exact herase.queueInLoop (.connectDestroyed conn) (by simp) ⟨hcb, rfl⟩
  | sendInLoop conn enables =>
    show Sequenced (s.sendInLoop conn enables)
    unfold State.sendInLoop
    split
    · exact h
    · exact h.setLoop conn.loop_ _ rfl
  | shutdownInLoop | user => exact h

/-- `runInLoop` on the base loop's thread, or of a removal. -/
theorem runInLoop (h : Sequenced s) {thread l : LoopId n} {cb : Functor n}
    (hcb : ∀ conn, cb ≠ .connectEstablished conn) (hthread : thread = l → l = none)
    (hknown : FunctorKnown s.trace cb) (hdestroy : ∀ conn, cb = .connectDestroyed conn →
      .accepted conn ∈ s.trace ∧ conn.loop_ = l)
    (hbelongs : thread ≠ l → Belongs s.trace l cb) : Sequenced (s.runInLoop thread l cb) := by
  unfold State.runInLoop
  split
  · next heq =>
    obtain rfl := hthread heq
    subst heq
    exact (h.execute hcb hdestroy).run cb (hknown.concat _)
  · next hne => exact h.queueInLoop cb hcb (hbelongs hne)

theorem removeConnection (h : Sequenced s) {l : LoopId n} {conn : Conn n}
    (hacc : .accepted conn ∈ s.trace) (hloop : conn.loop_ = l) :
    Sequenced (s.removeConnection l conn) := by
  have hemit : Sequenced (s.emit (.removeConnection l conn)) :=
    h.emit (fun _ => rfl) (fun _ => by simp)
  have hacc' := List.mem_append_left [Event.removeConnection l conn] hacc
  unfold State.removeConnection
  dsimp only
  split
  · exact hemit
  · refine hemit.runInLoop (by simp) (fun _ => rfl) hacc' (by simp) fun hne => ?_
    exact ⟨hacc', rfl, fun hnone => hne (hloop.symm.trans hnone)⟩

/-- A connection nobody has seen before is accepted. -/
theorem accept (h : Sequenced s) (conn : Conn n) {t u : List (Functor n)}
    (hid : conn.id = s.accepts) (hold : s.script conn.loop_ = t ++ u)
    (hnew : s'.script conn.loop_ = t ++ .connectEstablished conn :: u)
    (hother : ∀ l ≠ conn.loop_, s'.script l = s.script l)
    (hacc : ∀ c, .accepted c ∈ s'.trace ↔ c = conn ∨ .accepted c ∈ s.trace)
    (hbase : ∀ c, .connectEstablished c ∈ (s'.loops none).queue →
      .connectEstablished c ∈ (s.loops none).queue)
    (haccepts : s'.accepts = s.accepts + 1) : Sequenced s' := by
  have hfresh : .accepted conn ∉ s.trace := by
    intro hmem
    have hlt := h.ids conn hmem
    omega
  have hnone : .connectEstablished conn ∉ t ++ u := by
    intro hmem
    exact hfresh (h.own conn.loop_ conn (Or.inl (hold ▸ hmem))).1
  -- nothing in the scripts is about the new connection, so the order of the rest stays
  refine ⟨fun l => ?_, fun l c => ?_, fun c hc => ?_, fun c hc => h.base c (hbase c hc),
    fun c hc => ?_⟩
  · by_cases heq : l = conn.loop_
    · subst heq
      rw [hnew]
      refine Justified.insert (hold ▸ h.ordered conn.loop_)
        (fun hmem => hnone (List.mem_append_left _ hmem)) ?_
      intro pre f hf hord
      cases f with
      | connectEstablished c =>
        have hne : c ≠ conn := by
          rintro rfl
          exact hnone (List.mem_append_right _ hf)
        simpa [Ordered, hne] using hord
      | connectDestroyed c =>
        obtain hmem | hmem := List.mem_append.mp hord
        · exact List.mem_append_left _ hmem
        · exact List.mem_append_right _ (List.mem_cons_of_mem _ hmem)
      | removeConnectionInLoop | sendInLoop | shutdownInLoop | user => trivial
    · rw [hother l heq]
      exact h.ordered l
  · intro hmem
    by_cases heq : l = conn.loop_
    · subst heq
      rw [hnew] at hmem
      have hsplit : c = conn ∨
          .connectEstablished c ∈ t ++ u ∨ .connectDestroyed c ∈ t ++ u := by
        simp only [List.mem_append, List.mem_cons, Functor.connectEstablished.injEq,
          reduceCtorEq, false_or] at hmem ⊢
        tauto
      obtain rfl | hmem := hsplit
      · exact ⟨(hacc c).mpr (Or.inl rfl), rfl⟩
      · obtain ⟨hc, hloop⟩ := h.own conn.loop_ c (hold ▸ hmem)
        exact ⟨(hacc c).mpr (Or.inr hc), hloop⟩
    · rw [hother l heq] at hmem
      obtain ⟨hc, hloop⟩ := h.own l c hmem
      exact ⟨(hacc c).mpr (Or.inr hc), hloop⟩
  · obtain rfl | hc := (hacc c).mp hc
    · rw [hnew]
      exact List.mem_append_right _ List.mem_cons_self
    · have hbegun := h.begun c hc
      by_cases heq : c.loop_ = conn.loop_
      · rw [heq, hnew]
        rw [heq, hold] at hbegun
        obtain hmem | hmem := List.mem_append.mp hbegun
        · exact List.mem_append_left _ hmem
        · exact List.mem_append_right _ (List.mem_cons_of_mem _ hmem)
      · rwa [hother c.loop_ heq]
  · rw [haccepts]
    obtain rfl | hc := (hacc c).mp hc
    · omega
    · exact Nat.lt_succ_of_lt (h.ids c hc)

theorem newConnection (h : Sequenced s) : Sequenced s.newConnection := by
  have hacc : ∀ c, .accepted c ∈ (s.register s.newConn).trace ↔
      c = s.newConn ∨ .accepted c ∈ s.trace := by
    intro c
    simp [State.register, or_comm]
  have hexec : ∀ l, executed l (s.register s.newConn).trace = executed l s.trace := by
    intro l
    simp only [State.register, State.trace_emit, executed_append]
    exact List.append_nil _
  unfold State.newConnection State.runInLoop
  split
  · next heq =>
    have hstarted : Sequenced
        ((s.register s.newConn).emit (.executed none (.connectEstablished s.newConn))) := by
      refine h.accept s.newConn (t := executed none s.trace)
        (u := (s.loops none).queue) rfl ?_ ?_ ?_ ?_ (fun c hmem => hmem) rfl
      · rw [← heq]
        rfl
      · rw [← heq]
        simp [State.script, hexec]
      · intro l hne
        rw [← heq] at hne
        simp [State.script, hexec, hne.symm]
      · intro c
        rw [← hacc c]
        simp
    exact hstarted.run (.connectEstablished s.newConn)
      (by simp [FunctorKnown, State.register])
  · next hne =>
    refine h.accept s.newConn (t := s.script s.newConn.loop_) (u := []) rfl
      (List.append_nil _).symm ?_ ?_ hacc ?_ rfl
    · simp [State.script, State.queueInLoop, State.loops_setLoop, hexec, Loop.queue]
    · intro l hl
      simp [State.script, State.queueInLoop, State.loops_setLoop, hexec, hl]
    · intro c hmem
      simpa [State.queueInLoop, State.loops_setLoop, hne] using hmem

/-- A loop moves on without executing anything. -/
theorem setPc (h : Sequenced s) (l : LoopId n) {pc : LoopPc n}
    (hfunctors : pc.functors = (s.loops l).pc.functors) : Sequenced (s.setPc l pc) := by
  refine h.setLoop l _ ?_
  simp only [Loop.queue, hfunctors]

theorem loopStep (h : Sequenced s) (hk : Known s) {l : LoopId n} (hs : LoopStep s l s') :
    Sequenced s' := by
  cases hs with
  | stop hpc hquit => exact (h.setPc l (by rw [hpc]; rfl)).emit (fun _ => rfl) (by simp)
  | poll hpc => exact h.setPc l (by rw [hpc]; rfl)
  | pollReturn active hpc hactive => exact h.setPc l (by rw [hpc]; rfl)
  | handleEvent conn rest hpc => exact h.setPc l (by rw [hpc]; rfl)
  | beginClose conn rest hpc =>
    refine (h.move s.held s.calls _).setPc l ?_
    show _ = (s.loops l).pc.functors
    rw [hpc]
    rfl
  | close conn rest pc state_ hpc hnext hstate =>
    obtain ⟨hacc, hloop⟩ := hk.channel l conn (Or.inr (by rw [hpc]; exact List.mem_cons_self))
    refine ((h.removeConnection hacc hloop).move _ _ state_).setPc l ?_
    show _ = ((s.removeConnection l conn).loops l).pc.functors
    rw [(s.calls_removeConnection l conn).pc, hpc]
    obtain rfl | rfl := hnext <;> rfl
  | swap hpc =>
    refine h.setLoop l _ ?_
    simp [Loop.queue, LoopPc.functors, hpc]
  | runFunctor functor rest hpc =>
    have hmem : functor ∈ (s.loops l).queue := by simp [Loop.queue, LoopPc.functors, hpc]
    -- the functor leaves the queue and is recorded as executed, so the script stays
    have hpop : Sequenced ((s.setPc l (.batch rest)).emit (.executed l functor)) := by
      refine h.congr (fun l' => ?_) (by simp [State.setPc]) (fun conn hconn => ?_) rfl
      · by_cases heq : l' = l
        · subst heq
          simp [State.script, State.setPc, State.loops_setLoop, Loop.queue, LoopPc.functors, hpc]
        · simp [State.script, State.setPc, State.loops_setLoop, heq, Ne.symm heq]
      · by_cases hnone : none = l
        · subst hnone
          simp only [State.loops_emit, State.setPc, State.loops_setLoop, if_true, Loop.queue,
            LoopPc.functors, hpc] at hconn ⊢
          exact List.mem_cons_of_mem functor hconn
        · simpa [State.setPc, State.loops_setLoop, hnone] using hconn
    exact hpop.run functor ((hk.functor l functor hmem).known.concat _)
  | endBatch hpc => exact h.setPc l (by rw [hpc]; rfl)

theorem userStep (h : Sequenced s) (hk : Known s) (hs : UserStep s s') : Sequenced s' := by
  cases hs with
  | move held calls state_ hcalls hstate => exact h.move held calls state_
  | queue c cb hmem hcb =>
    have herase := h.move s.held (s.calls.erase c) s.state_
    have hacc := hk.calls c hmem
    obtain ⟨enables, rfl⟩ | rfl := hcb
    · exact herase.queueInLoop _ (by simp) ⟨hacc, rfl⟩
    · exact herase.queueInLoop _ (by simp) ⟨hacc, rfl⟩

theorem step (h : Sequenced s) (hk : Known s) {a : Action n} (hs : step s a = some s') :
    Sequenced s' := by
  have hlife : ∀ life, Sequenced { s with life } :=
    fun _ => ⟨h.ordered, h.own, h.begun, h.base, h.ids⟩
  cases Step.of_step hs with
  | loop l a _ hfree hs => exact h.loopStep hk hs
  | accept active hpc halive => exact h.newConnection
  | queueUser l => exact h.queueInLoop .user (by simp) trivial
  | user a _ hs => exact h.userStep hk hs
  | destructor halive => exact (hlife _).emit (fun _ => rfl) (by simp)
  | destroyItem conn items hitems hmem =>
    have hacc := hk.items items hitems conn hmem
    refine (hlife _).runInLoop (by simp) Eq.symm hacc ?_ fun _ => ⟨hacc, rfl⟩
    rintro c ⟨⟩
    exact ⟨hacc, rfl⟩
  | endBody hbody => exact hlife _
  | quitLoop i hquit => exact (hlife _).setLoop _ _ rfl
  | joinLoop i hjoin hpc => exact hlife _
  | finish hquit => exact (hlife _).emit (fun _ => rfl) (by simp)

end Sequenced

/-! ## The registry -/

/-- The removal of the connection has run. -/
def Removed (t : List (Event n)) (conn : Conn n) : Prop :=
  ∃ thread, .executed thread (.removeConnectionInLoop conn) ∈ t

/-- `connections_` holds, each under its own name, the connections accepted and not removed. -/
def State.Exact (s : State n) : Prop :=
  ∀ name conn, s.connections_.lookup name = some conn ↔
    .accepted conn ∈ s.trace ∧ conn.name_ = name ∧ ¬ Removed s.trace conn

/-- The step neither registers nor removes anything. -/
structure Quiet (s s' : State n) : Prop where
  name_ : s'.name_ = s.name_
  ipPort_ : s'.ipPort_ = s.ipPort_
  nextConnId_ : s'.nextConnId_ = s.nextConnId_
  connections_ : s'.connections_ = s.connections_
  accepts : s'.accepts = s.accepts
  alive : s'.life = .alive → s.life = .alive
  accepted : ∀ conn, .accepted conn ∈ s'.trace ↔ .accepted conn ∈ s.trace
  removed : ∀ conn, Removed s'.trace conn ↔ Removed s.trace conn

namespace Quiet

variable {s₁ s₂ s₃ : State n}

theorem trans (h : Quiet s₁ s₂) (h' : Quiet s₂ s₃) : Quiet s₁ s₃ where
  name_ := h'.name_.trans h.name_
  ipPort_ := h'.ipPort_.trans h.ipPort_
  nextConnId_ := h'.nextConnId_.trans h.nextConnId_
  connections_ := h'.connections_.trans h.connections_
  accepts := h'.accepts.trans h.accepts
  alive := h.alive ∘ h'.alive
  accepted conn := (h'.accepted conn).trans (h.accepted conn)
  removed conn := (h'.removed conn).trans (h.removed conn)

theorem setLoop (s : State n) (l : LoopId n) (f : Loop n → Loop n) : Quiet s (s.setLoop l f) :=
  ⟨rfl, rfl, rfl, rfl, rfl, id, fun _ => Iff.rfl, fun _ => Iff.rfl⟩

theorem setLife (s : State n) {life : Life n} (h : life ≠ .alive) : Quiet s { s with life } :=
  ⟨rfl, rfl, rfl, rfl, rfl, fun halive => absurd halive h, fun _ => Iff.rfl, fun _ => Iff.rfl⟩

theorem move (s : State n) (held : List (Conn n)) (calls : List (Call n))
    (state_ : Conn n → StateE) : Quiet s { s with held, calls, state_ } :=
  ⟨rfl, rfl, rfl, rfl, rfl, id, fun _ => Iff.rfl, fun _ => Iff.rfl⟩

theorem emit (s : State n) {e : Event n} (hacc : ∀ conn, e ≠ .accepted conn)
    (hrem : ∀ thread conn, e ≠ .executed thread (.removeConnectionInLoop conn)) :
    Quiet s (s.emit e) := by
  refine ⟨rfl, rfl, rfl, rfl, rfl, id, fun conn => ?_, fun conn => ?_⟩
  · have hne := (hacc conn).symm
    simp [hne]
  · have hne := fun thread => (hrem thread conn).symm
    simp [Removed, hne]

/-- A functor that removes nothing is executed. -/
theorem call (s : State n) (thread : LoopId n) {cb : Functor n}
    (hcb : ∀ conn, cb ≠ .removeConnectionInLoop conn) : Quiet s (s.call thread cb) := by
  have hemit : Quiet s (s.emit (.executed thread cb)) := by
    apply emit
    · simp
    · intro thread' conn heq
      exact hcb conn (Event.executed.inj heq).2
  cases cb with
  | connectEstablished conn =>
    exact (hemit.trans (move _ s.held s.calls _)).trans
      (setLoop _ conn.loop_ fun loop => { loop with channels_ := conn :: loop.channels_ })
  | connectDestroyed conn =>
    exact (hemit.trans (move _ s.held s.calls _)).trans
      (setLoop _ conn.loop_ fun loop =>
        { loop with channels_ := loop.channels_.filter (· ≠ conn) })
  | removeConnectionInLoop conn => exact absurd rfl (hcb conn)
  | sendInLoop conn enables =>
    show Quiet s (State.sendInLoop _ conn enables)
    unfold State.sendInLoop
    split
    · exact hemit
    · exact hemit.trans (setLoop _ conn.loop_ _)
  | shutdownInLoop | user => exact hemit

theorem runInLoop (s : State n) (thread l : LoopId n) {cb : Functor n}
    (hcb : ∀ conn, cb ≠ .removeConnectionInLoop conn) : Quiet s (s.runInLoop thread l cb) := by
  unfold State.runInLoop
  split
  · exact call s thread hcb
  · exact setLoop s l _

theorem userStep (hs : UserStep s s') : Quiet s s' := by
  cases hs with
  | move held calls state_ => exact move s held calls state_
  | queue c => exact (move s s.held (s.calls.erase c) s.state_).trans (setLoop _ c.conn.loop_ _)

end Quiet

structure Registered (s : State n) : Prop where
  ipPort : s.ipPort_.length ≤ 21
  next : s.nextConnId_ = .ofNat (s.accepts + 1)
  ids : ∀ conn, .accepted conn ∈ s.trace → conn.id < s.accepts
  names : ∀ conn, .accepted conn ∈ s.trace →
    conn.name_ = State.connName s.name_ s.ipPort_ (.ofNat (conn.id + 1))
  same : ∀ conn conn', .accepted conn ∈ s.trace → .accepted conn' ∈ s.trace →
    conn.id = conn'.id → conn = conn'
  removed : ∀ conn, Removed s.trace conn → .accepted conn ∈ s.trace
  exact_ : s.life = .alive → s.accepts < 2 ^ 31 → s.Exact

theorem registered_start (n : Nat) (nameArg : List UInt8) (listenAddr : InetAddress) :
    Registered (start n nameArg listenAddr) := by
  refine ⟨toIpPort_length_le listenAddr, rfl, ?_, ?_, ?_, ?_, ?_⟩
  all_goals simp [start, State.Exact, Removed]

namespace Registered

theorem quiet (h : Registered s) (hq : Quiet s s') : Registered s' where
  ipPort := by
    rw [hq.ipPort_]
    exact h.ipPort
  next := by
    rw [hq.nextConnId_, hq.accepts]
    exact h.next
  ids conn hconn := by
    rw [hq.accepts]
    exact h.ids conn ((hq.accepted conn).mp hconn)
  names conn hconn := by
    rw [hq.name_, hq.ipPort_]
    exact h.names conn ((hq.accepted conn).mp hconn)
  same conn conn' hconn hconn' :=
    h.same conn conn' ((hq.accepted conn).mp hconn) ((hq.accepted conn').mp hconn')
  removed conn hconn := (hq.accepted conn).mpr (h.removed conn ((hq.removed conn).mp hconn))
  exact_ halive haccepts name conn := by
    rw [hq.connections_, hq.accepted, hq.removed]
    exact h.exact_ (hq.alive halive) (hq.accepts ▸ haccepts) name conn

/-- Among fewer than `2 ^ 31` connections the name tells which one it is. -/
theorem name_inj (h : Registered s) (haccepts : s.accepts < 2 ^ 31) {conn conn' : Conn n}
    (hconn : .accepted conn ∈ s.trace) (hconn' : .accepted conn' ∈ s.trace)
    (hname : conn.name_ = conn'.name_) : conn = conn' := by
  have hid := h.ids conn hconn
  have hid' := h.ids conn' hconn'
  rw [h.names conn hconn, h.names conn' hconn'] at hname
  exact h.same conn conn' hconn hconn' (connName_inj h.ipPort (by omega) (by omega) hname)

/-- A removal takes out its own connection. -/
theorem callRemove (h : Registered s) (thread : LoopId n) {conn : Conn n}
    (hconn : .accepted conn ∈ s.trace) :
    Registered (s.call thread (.removeConnectionInLoop conn)) := by
  have hacc : ∀ c, .accepted c ∈ (s.emit (.executed thread (.removeConnectionInLoop conn))).trace ↔
      .accepted c ∈ s.trace := by
    simp
  have hrem : ∀ c, Removed (s.emit (.executed thread (.removeConnectionInLoop conn))).trace c ↔
      Removed s.trace c ∨ c = conn := by
    intro c
    simp only [Removed, State.trace_emit, List.mem_append, List.mem_singleton,
      Event.executed.injEq, Functor.removeConnectionInLoop.injEq, exists_or]
    simp
  -- with the entry erased, the map holds the accepted connections but this one
  have herase : Registered
      { s.emit (.executed thread (.removeConnectionInLoop conn)) with
        connections_ := s.connections_.erase conn.name_ } := by
    refine ⟨h.ipPort, h.next, fun c hc => h.ids c ((hacc c).mp hc),
      fun c hc => h.names c ((hacc c).mp hc),
      fun c c' hc hc' => h.same c c' ((hacc c).mp hc) ((hacc c').mp hc'), fun c hc => ?_,
      fun halive haccepts name c => ?_⟩
    · obtain hc | rfl := (hrem c).mp hc
      · exact (hacc c).mpr (h.removed c hc)
      · exact (hacc c).mpr hconn
    · rw [hacc, hrem]
      by_cases hname : name = conn.name_
      · subst hname
        rw [AList.lookup_erase]
        constructor
        · intro hnone
          cases hnone
        · rintro ⟨hc, heq, hnot⟩
          exact absurd (Or.inr (h.name_inj haccepts hc hconn heq)) hnot
      · rw [AList.lookup_erase_ne hname, h.exact_ halive haccepts name c, not_or]
        constructor
        · rintro ⟨hc, heq, hnot⟩
          refine ⟨hc, heq, hnot, ?_⟩
          rintro rfl
          exact hname heq.symm
        · rintro ⟨hc, heq, hnot, -⟩
          exact ⟨hc, heq, hnot⟩
  show Registered (State.removeConnectionInLoop _ conn)
  unfold State.removeConnectionInLoop
  split
  · next hlife =>
    -- the map is gone
    refine ⟨h.ipPort, h.next, herase.ids, herase.names, herase.same, herase.removed, ?_⟩
    intro halive
    rw [hlife] at halive
    cases halive
  · exact herase.quiet (Quiet.setLoop _ _ _)

theorem call (h : Registered s) (thread : LoopId n) (cb : Functor n)
    (hcb : FunctorKnown s.trace cb) : Registered (s.call thread cb) := by
  cases cb with
  | removeConnectionInLoop conn => exact h.callRemove thread hcb
  | connectEstablished | connectDestroyed | sendInLoop | shutdownInLoop | user =>
    exact h.quiet (Quiet.call s thread (by simp))

theorem removeConnection (h : Registered s) (thread : LoopId n) {conn : Conn n}
    (hconn : .accepted conn ∈ s.trace) : Registered (s.removeConnection thread conn) := by
  have hemit : Registered (s.emit (.removeConnection thread conn)) :=
    h.quiet (Quiet.emit s (by simp) (by simp))
  unfold State.removeConnection State.runInLoop
  dsimp only
  split
  · exact hemit
  · split
    · exact hemit.call thread _ (List.mem_append_left _ hconn)
    · exact hemit.quiet (Quiet.setLoop _ _ _)

theorem register (h : Registered s) : Registered (s.register s.newConn) := by
  have hacc : ∀ c, .accepted c ∈ (s.register s.newConn).trace ↔
      .accepted c ∈ s.trace ∨ c = s.newConn := by
    simp [State.register]
  have hrem : ∀ c, Removed (s.register s.newConn).trace c ↔ Removed s.trace c := by
    simp [State.register, Removed]
  have hfresh : ¬ Removed s.trace s.newConn := by
    intro hmem
    exact Nat.lt_irrefl s.accepts (h.ids _ (h.removed _ hmem))
  have hids : ∀ c, .accepted c ∈ s.trace → c.id ≠ s.accepts :=
    fun c hc => Nat.ne_of_lt (h.ids c hc)
  have hnames : ∀ c, .accepted c ∈ (s.register s.newConn).trace →
      c.name_ = State.connName s.name_ s.ipPort_ (.ofNat (c.id + 1)) := by
    intro c hc
    obtain hc | rfl := (hacc c).mp hc
    · exact h.names c hc
    · show State.connName s.name_ s.ipPort_ s.nextConnId_ = _
      rw [h.next]
      rfl
  refine ⟨h.ipPort, ?_, fun c hc => ?_, hnames, fun c c' hc hc' heq => ?_, fun c hc => ?_,
    fun halive haccepts name c => ?_⟩
  · show s.nextConnId_ + 1 = .ofNat (s.accepts + 1 + 1)
    rw [h.next, Int32.ofNat_add (s.accepts + 1) 1]
    rfl
  · obtain hc | rfl := (hacc c).mp hc
    · exact Nat.lt_succ_of_lt (h.ids c hc)
    · exact Nat.lt_succ_self _
  · obtain hc | rfl := (hacc c).mp hc <;> obtain hc' | rfl := (hacc c').mp hc'
    · exact h.same c c' hc hc' heq
    · exact absurd heq (hids c hc)
    · exact absurd heq.symm (hids c' hc')
    · rfl
  · exact (hacc c).mpr (Or.inl (h.removed c ((hrem c).mp hc)))
  · have hlt : s.accepts + 1 < 2 ^ 31 := haccepts
    rw [hacc, hrem]
    show (s.connections_.insert s.newConn.name_ s.newConn).lookup name = some c ↔ _
    by_cases hname : name = s.newConn.name_
    · subst hname
      rw [AList.lookup_insert, Option.some.injEq]
      constructor
      · rintro rfl
        exact ⟨Or.inr rfl, rfl, hfresh⟩
      · rintro ⟨hc | rfl, heq, hnot⟩
        · -- an older connection has another number in its name
          have hid := h.ids c hc
          rw [h.names c hc, hnames s.newConn ((hacc _).mpr (Or.inr rfl))] at heq
          exact absurd (connName_inj h.ipPort (by omega) hlt heq) (hids c hc)
        · rfl
    · rw [AList.lookup_insert_ne hname, h.exact_ halive (by omega) name c]
      constructor
      · rintro ⟨hc, heq, hnot⟩
        exact ⟨Or.inl hc, heq, hnot⟩
      · rintro ⟨hc | rfl, heq, hnot⟩
        · exact ⟨hc, heq, hnot⟩
        · exact absurd heq.symm hname

theorem newConnection (h : Registered s) : Registered s.newConnection :=
  h.register.quiet (Quiet.runInLoop _ _ _ (by simp))

theorem loopStep (h : Registered s) (hk : Known s) {l : LoopId n} (hs : LoopStep s l s') :
    Registered s' := by
  have hmove : ∀ f, Registered (s.setLoop l f) := fun f => h.quiet (Quiet.setLoop s l f)
  cases hs with
  | stop hpc hquit => exact (hmove _).quiet (Quiet.emit _ (by simp) (by simp))
  | beginClose conn rest hpc =>
    exact h.quiet ((Quiet.move s s.held s.calls _).trans (Quiet.setLoop _ l _))
  | close conn rest pc state_ hpc hnext hstate =>
    have hconn := (hk.channel l conn (Or.inr (by rw [hpc]; exact List.mem_cons_self))).1
    refine (h.removeConnection l hconn).quiet ?_
    exact (Quiet.move _ _ _ state_).trans (Quiet.setLoop _ l _)
  | runFunctor functor rest hpc =>
    have hmem : functor ∈ (s.loops l).queue := by simp [Loop.queue, LoopPc.functors, hpc]
    exact Registered.call (hmove _) l functor (hk.functor l functor hmem).known
  | poll | pollReturn | handleEvent | swap | endBatch => exact hmove _

theorem step (h : Registered s) (hk : Known s) {a : Action n} (hs : step s a = some s') :
    Registered s' := by
  cases Step.of_step hs with
  | loop l a _ hfree hs => exact h.loopStep hk hs
  | accept active hpc halive => exact h.newConnection
  | queueUser l => exact h.quiet (Quiet.setLoop s l _)
  | user a _ hs => exact h.quiet (Quiet.userStep hs)
  | destructor halive =>
    exact h.quiet ((Quiet.setLife s (by simp)).trans (Quiet.emit _ (by simp) (by simp)))
  | destroyItem conn items hitems hmem =>
    exact h.quiet ((Quiet.setLife s (by simp)).trans (Quiet.runInLoop _ _ _ (by simp)))
  | endBody hbody => exact h.quiet (Quiet.setLife s (by simp))
  | quitLoop i hquit => exact h.quiet ((Quiet.setLife s (by simp)).trans (Quiet.setLoop _ _ _))
  | joinLoop i hjoin hpc => exact h.quiet (Quiet.setLife s (by simp))
  | finish hquit =>
    exact h.quiet ((Quiet.setLife s (by simp)).trans (Quiet.emit _ (by simp) (by simp)))

end Registered

/-- What holds in every state that a server reaches. -/
structure Sound (s : State n) : Prop where
  known : Known s
  sequenced : Sequenced s
  registered : Registered s

theorem sound_start (n : Nat) (nameArg : List UInt8) (listenAddr : InetAddress) :
    Sound (start n nameArg listenAddr) :=
  ⟨Known.start n nameArg listenAddr, sequenced_start n nameArg listenAddr,
    registered_start n nameArg listenAddr⟩

theorem Sound.step (s : State n) (a : Action n) (s' : State n) (h : Sound s)
    (hs : step s a = some s') : Sound s' :=
  ⟨h.known.step s a s' hs, h.sequenced.step h.known hs, h.registered.step h.known hs⟩

/-- The removal of one connection does not touch the entry of another. -/
theorem lookup_removeConnectionInLoop (h : Registered s) (haccepts : s.accepts < 2 ^ 31)
    {conn conn' : Conn n} (hconn : .accepted conn ∈ s.trace) (hconn' : .accepted conn' ∈ s.trace)
    (hne : conn' ≠ conn) :
    (s.removeConnectionInLoop conn).connections_.lookup conn'.name_ =
      s.connections_.lookup conn'.name_ := by
  have hname : conn'.name_ ≠ conn.name_ :=
    fun heq => hne (h.name_inj haccepts hconn' hconn heq)
  unfold State.removeConnectionInLoop
  split
  · rfl
  · exact AList.lookup_erase_ne hname

/-- With fewer than `2 ^ 31` accepts, the registry of a live server is exact, an erasure takes
out one connection only, and every loop starts a connection at most once, destroys it only
after that, and touches no connection of another loop. -/
theorem registry_exact (n : Nat) (nameArg : List UInt8) (listenAddr : InetAddress) (s : State n)
    (hs : Reachable step (start n nameArg listenAddr) s) (haccepts : s.accepts < 2 ^ 31) :
    (s.life = .alive → s.Exact) ∧
      (∀ conn conn', .accepted conn ∈ s.trace → .accepted conn' ∈ s.trace → conn' ≠ conn →
        (s.removeConnectionInLoop conn).connections_.lookup conn'.name_ =
          s.connections_.lookup conn'.name_) ∧
      ∀ l, Justified Ordered (executed l s.trace) ∧
        ∀ conn, .connectEstablished conn ∈ executed l s.trace ∨
          .connectDestroyed conn ∈ executed l s.trace → conn.loop_ = l := by
  have h : Sound s := reachable_invariant Sound.step (sound_start n nameArg listenAddr) hs
  refine ⟨fun halive => h.registered.exact_ halive haccepts, fun conn conn' hconn hconn' hne =>
    lookup_removeConnectionInLoop h.registered haccepts hconn hconn' hne, fun l => ⟨?_, ?_⟩⟩
  · exact (h.sequenced.ordered l).left
  · intro conn hmem
    have hscript : .connectEstablished conn ∈ s.script l ∨ .connectDestroyed conn ∈ s.script l :=
      hmem.imp (List.mem_append_left _) (List.mem_append_left _)
    exact (h.sequenced.own l conn hscript).2

/-- A server on `127.0.0.1:8000` with one sub-loop. -/
def echoServer : State 1 := start 1 (ascii "EchoServer") ⟨(127, 0, 0, 1), 8000⟩

/-- Its sub-loop. -/
def subLoop : LoopId 1 := some (.last 0)

/-- A connection is accepted, established, closed by the peer, and destroyed. -/
def closedByPeer : List (Action 1) :=
  [.loop none .testQuit, .loop none (.pollReturn []), .accept, .loop none .swapFunctors,
    .loop subLoop .testQuit, .loop subLoop (.pollReturn []), .loop subLoop .swapFunctors,
    .loop subLoop .runFunctor, .loop subLoop .endBatch, .loop subLoop .testQuit,
    .loop subLoop (.pollReturn [echoServer.newConn]), .loop subLoop (.handleEvent true),
    .loop subLoop (.closeCallback false), .loop none .endBatch, .loop none .testQuit,
    .loop none (.pollReturn []), .loop none .swapFunctors, .loop none .runFunctor,
    .loop subLoop .swapFunctors, .loop subLoop .runFunctor]

theorem registry_exact_closedByPeer : ∃ s, run step echoServer closedByPeer = some s ∧
    s.Exact ∧ executed (some 0) s.trace =
      [.connectEstablished echoServer.newConn, .connectDestroyed echoServer.newConn] := by
  refine ⟨_, rfl, ?_, rfl⟩
  have hreach : Reachable step echoServer _ := ⟨closedByPeer, rfl⟩
  exact (registry_exact 1 _ _ _ hreach (by decide)).1 rfl

end CppInOne.Mymuduo.TcpServer
