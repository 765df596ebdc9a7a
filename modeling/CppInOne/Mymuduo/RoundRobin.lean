import Mathlib.Data.Int.CardIntervalMod
import CppInOne.Mymuduo.ConnectionRegistry

/-!
# Connections on the sub-loops

`getNextLoop` hands out the sub-loops in turn. In every state of a server the connection that
was accepted as number `k` has its channel on the sub-loop `k % n`, whatever the loops did in
between, so that no sub-loop gets more than one connection ahead of another.
-/

namespace CppInOne.Mymuduo.TcpServer
open ByteString Transition

variable {n : Nat}

/-- The accepted connections, in order. -/
def acceptedConns (t : List (Event n)) : List (Conn n) :=
  t.filterMap fun
    | .accepted conn => some conn
    | _ => none

/-- The loop for connection number `k`: the sub-loops in turn, or the base loop if there are
none. -/
def roundRobin (n k : Nat) : LoopId n :=
  if h : 0 < n then some ⟨k % n, Nat.mod_lt k h⟩ else none

@[simp] theorem acceptedConns_append (t t' : List (Event n)) :
    acceptedConns (t ++ t') = acceptedConns t ++ acceptedConns t' := List.filterMap_append

theorem mem_acceptedConns {t : List (Event n)} {conn : Conn n} :
    conn ∈ acceptedConns t ↔ .accepted conn ∈ t := by
  simp only [acceptedConns, List.mem_filterMap]
  constructor
  · rintro ⟨e, he, hconn⟩
    cases e <;> simp at hconn
    exact hconn ▸ he
  · exact fun h => ⟨_, h, rfl⟩

theorem roundRobin_eq_some_iff {k : Nat} {i : Fin n} :
    roundRobin n k = some i ↔ k ≡ i [MOD n] := by
  have hn : 0 < n := i.pos
  rw [roundRobin, dif_pos hn, Option.some.injEq, Fin.ext_iff, Nat.ModEq,
    Nat.mod_eq_of_lt i.isLt]

/-! ## Steps that accept nothing -/

/-- No connection is accepted, and the turn does not move. -/
structure NoAccept (s s' : State n) : Prop where
  next_ : s'.next_ = s.next_
  accepts : s'.accepts = s.accepts
  conns : acceptedConns s'.trace = acceptedConns s.trace

namespace NoAccept

variable {s s' s'' : State n}

theorem refl (s : State n) : NoAccept s s := ⟨rfl, rfl, rfl⟩

theorem trans (h : NoAccept s s') (h' : NoAccept s' s'') : NoAccept s s'' where
  next_ := h'.next_.trans h.next_
  accepts := h'.accepts.trans h.accepts
  conns := h'.conns.trans h.conns

theorem setLoop (s : State n) (l : LoopId n) (f : Loop n → Loop n) : NoAccept s (s.setLoop l f) :=
  ⟨rfl, rfl, rfl⟩

theorem setLife (s : State n) (life : Life n) : NoAccept s { s with life } := ⟨rfl, rfl, rfl⟩

theorem move (s : State n) (held : List (Conn n)) (calls : List (Call n))
    (state_ : Conn n → StateE) : NoAccept s { s with held, calls, state_ } := ⟨rfl, rfl, rfl⟩

theorem emit (s : State n) {e : Event n} (he : acceptedConns [e] = []) :
    NoAccept s (s.emit e) := by
  refine ⟨rfl, rfl, ?_⟩
  rw [State.trace_emit, acceptedConns_append, he, List.append_nil]

theorem run (s : State n) (cb : Functor n) : NoAccept s (s.run cb) := by
  cases cb with
  | connectEstablished | connectDestroyed => exact ⟨rfl, rfl, rfl⟩
  | removeConnectionInLoop conn =>
    rw [State.run, State.removeConnectionInLoop]
    split
    · exact refl s
    · exact ⟨rfl, rfl, rfl⟩
  | sendInLoop conn enables =>
    rw [State.run, State.sendInLoop]
    split
    · exact refl s
    · exact setLoop s conn.loop_ _
  | shutdownInLoop | user => exact refl s

theorem call (s : State n) (thread : LoopId n) (cb : Functor n) : NoAccept s (s.call thread cb) :=
  (emit s rfl).trans (run _ cb)

theorem runInLoop (s : State n) (thread l : LoopId n) (cb : Functor n) :
    NoAccept s (s.runInLoop thread l cb) := by
  rw [State.runInLoop]
  split
  · exact call s thread cb
  · exact setLoop s l _

theorem removeConnection (s : State n) (thread : LoopId n) (conn : Conn n) :
    NoAccept s (s.removeConnection thread conn) := by
  apply (emit s (e := .removeConnection thread conn) rfl).trans
  rw [State.removeConnection]
  split
  · exact refl _
  · exact runInLoop _ _ _ _

theorem loopStep {l : LoopId n} (hs : LoopStep s l s') : NoAccept s s' := by
  cases hs with
  | stop => exact (setLoop s l _).trans (emit _ rfl)
  | beginClose => exact (move s s.held s.calls _).trans (setLoop _ l _)
  | close conn rest pc state_ hpc hnext hstate =>
    exact ((removeConnection s l conn).trans (move _ _ _ state_)).trans (setLoop _ l _)
  | runFunctor functor rest hpc => exact (setLoop s l _).trans (call _ l functor)
  | poll | pollReturn | handleEvent | swap | endBatch => exact setLoop s l _

theorem userStep (hs : UserStep s s') : NoAccept s s' := by
  cases hs with
  | move held calls state_ => exact move s held calls state_
  | queue c => exact (move s s.held (s.calls.erase c) s.state_).trans (setLoop _ c.conn.loop_ _)

/-- Only an accept registers a connection. -/
theorem step {a : Action n} (hs : Step s a s') (ha : a ≠ .accept) : NoAccept s s' := by
  cases hs with
  | loop l a _ hfree hs => exact loopStep hs
  | accept => exact absurd rfl ha
  | queueUser l => exact setLoop s l _
  | user a _ hs => exact userStep hs
  | destructor hlife => exact (setLife s _).trans (emit _ rfl)
  | destroyItem conn items hlife hmem => exact (setLife s _).trans (runInLoop _ _ _ _)
  | endBody hlife => exact setLife s _
  | quitLoop i hlife => exact (setLife s _).trans (setLoop _ _ _)
  | joinLoop i hlife hpc => exact setLife s _
  | finish hlife => exact (setLife s _).trans (emit _ rfl)

end NoAccept

/-! ## The turn -/

structure InTurn (s : State n) : Prop where
  next_ : 0 < n → s.next_ = s.accepts % n
  ids : (acceptedConns s.trace).map Conn.id = List.range s.accepts
  loop_ : ∀ conn ∈ acceptedConns s.trace, conn.loop_ = roundRobin n conn.id

namespace InTurn

variable {s s' : State n}

theorem start (n : Nat) (nameArg : List UInt8) (listenAddr : InetAddress) :
    InTurn (start n nameArg listenAddr) where
  next_ _ := (Nat.zero_mod n).symm
  ids := rfl
  loop_ _ h := absurd h List.not_mem_nil

theorem congr (h : InTurn s) (hs : NoAccept s s') : InTurn s' := by
  constructor
  · rw [hs.next_, hs.accepts]
    exact h.next_
  · rw [hs.conns, hs.accepts]
    exact h.ids
  · rw [hs.conns]
    exact h.loop_

theorem getNextLoop_fst (h : InTurn s) : s.getNextLoop.1 = roundRobin n s.accepts := by
  by_cases hn : 0 < n
  · have hlt : s.next_ < n := by
      rw [h.next_ hn]
      exact Nat.mod_lt _ hn
    rw [State.getNextLoop, dif_pos hlt, roundRobin, dif_pos hn]
    simp only [h.next_ hn]
  · have hzero : ¬ s.next_ < n := fun hlt => hn (Nat.zero_lt_of_lt hlt)
    rw [State.getNextLoop, dif_neg hzero, roundRobin, dif_neg hn]

/-- The turn wraps around at the last sub-loop. -/
theorem getNextLoop_snd (h : InTurn s) (hn : 0 < n) :
    s.getNextLoop.2 = (s.accepts + 1) % n := by
  have hlt : s.next_ < n := by
    rw [h.next_ hn]
    exact Nat.mod_lt _ hn
  have hsucc : (s.accepts + 1) % n = (s.next_ + 1) % n := by rw [h.next_ hn, Nat.mod_add_mod]
  rw [State.getNextLoop, dif_pos hlt, hsucc]
  dsimp only
  split
  · next hwrap =>
    have hlast : s.next_ + 1 = n := by omega
    rw [hlast, Nat.mod_self]
  · next hmore => exact (Nat.mod_eq_of_lt (by omega)).symm

theorem register (h : InTurn s) : InTurn (s.register s.newConn) where
  next_ hn := h.getNextLoop_snd hn
  ids := by
    have hconns : acceptedConns (s.register s.newConn).trace =
        acceptedConns s.trace ++ [s.newConn] := acceptedConns_append _ _
    rw [hconns, List.map_append, h.ids]
    exact List.range_succ.symm
  loop_ conn hconn := by
    have hconns : acceptedConns (s.register s.newConn).trace =
        acceptedConns s.trace ++ [s.newConn] := acceptedConns_append _ _
    rw [hconns] at hconn
    obtain hconn | hconn := List.mem_append.mp hconn
    · exact h.loop_ conn hconn
    · rw [List.mem_singleton.mp hconn]
      exact h.getNextLoop_fst

theorem step (s : State n) (a : Action n) (s' : State n) (h : InTurn s)
    (hs : step s a = some s') : InTurn s' := by
  have hs := Step.of_step hs
  by_cases ha : a = .accept
  · subst ha
    cases hs with
    | accept active hpc hlife => exact h.register.congr (NoAccept.runInLoop _ _ _ _)
  · exact h.congr (NoAccept.step hs ha)

theorem conns_loops (h : InTurn s) : (acceptedConns s.trace).map Conn.loop_ =
    (List.range s.accepts).map (roundRobin n) := by
  rw [← h.ids, List.map_map]
  apply List.map_congr_left
  exact h.loop_

end InTurn

theorem countP_range (p : Nat → Bool) (k : Nat) :
    (List.range k).countP p = Nat.count (fun j => p j = true) k := by
  induction k with
  | zero => rfl
  | succ k ih =>
    rw [List.range_succ, List.countP_append, ih, Nat.count_succ, List.countP_singleton]

/-- How many of the first `k` connections a sub-loop gets. -/
theorem count_roundRobin (i : Fin n) (k : Nat) :
    ((List.range k).map (roundRobin n)).count (some i) =
      k / n + if i.val < k % n then 1 else 0 := by
  have hp : (fun j => (roundRobin n j == some i) = true) = fun j => j ≡ i.val [MOD n] := by
    funext j
    rw [beq_iff_eq, roundRobin_eq_some_iff]
  calc ((List.range k).map (roundRobin n)).count (some i)
      = (List.range k).countP fun j => roundRobin n j == some i := List.countP_map
    _ = Nat.count (fun j => (roundRobin n j == some i) = true) k := countP_range _ k
    _ = Nat.count (fun j => j ≡ i.val [MOD n]) k := by simp only [hp]
    _ = k / n + if i.val % n < k % n then 1 else 0 := Nat.count_modEq_card k i.pos i.val
    _ = k / n + if i.val < k % n then 1 else 0 := by rw [Nat.mod_eq_of_lt i.isLt]

/-- **Connections are dealt out in turn.** In every state of a server, whatever its loops and
its clients did in between, the accepted connections are numbered without gaps and number `k`
belongs to the sub-loop `k % n`, or to the base loop if there is no sub-loop. The functors of a
connection run on the thread of that loop only, and of `k` connections a sub-loop has got
`k / n`, or one more when it is among the first `k % n`. -/
theorem dealt_in_turn (n : Nat) (nameArg : List UInt8) (listenAddr : InetAddress) (s : State n)
    (hs : Reachable step (start n nameArg listenAddr) s) :
    (acceptedConns s.trace).map Conn.id = List.range s.accepts ∧
      (∀ conn, .accepted conn ∈ s.trace → conn.loop_ = roundRobin n conn.id) ∧
      (∀ l conn, .executed l (.connectEstablished conn) ∈ s.trace ∨
        .executed l (.connectDestroyed conn) ∈ s.trace → l = roundRobin n conn.id) ∧
      ∀ i : Fin n, ((acceptedConns s.trace).map Conn.loop_).count (some i) =
        s.accepts / n + if i.val < s.accepts % n then 1 else 0 := by
  have hturn : InTurn s := reachable_invariant InTurn.step (.start n nameArg listenAddr) hs
  have hsound : Sound s := reachable_invariant Sound.step (sound_start n nameArg listenAddr) hs
  have hloop : ∀ conn, .accepted conn ∈ s.trace → conn.loop_ = roundRobin n conn.id :=
    fun conn hconn => hturn.loop_ conn (mem_acceptedConns.mpr hconn)
  refine ⟨hturn.ids, hloop, fun l conn hexec => ?_, fun i => ?_⟩
  · have hown := hsound.sequenced.own l conn (hexec.imp
      (fun h => List.mem_append_left _ (mem_executed.mpr h))
      (fun h => List.mem_append_left _ (mem_executed.mpr h)))
    rw [← hown.2, hloop conn hown.1]
  · rw [hturn.conns_loops]
    exact count_roundRobin i s.accepts

/-- Four connections are accepted before any sub-loop has run. -/
def fourAccepts : List (Action 3) :=
  [.loop none .testQuit, .loop none (.pollReturn []), .accept, .accept, .accept, .accept]

theorem dealt_in_turn_four :
    ∃ s, run step (start 3 (ascii "EchoServer") ⟨(127, 0, 0, 1), 8000⟩) fourAccepts = some s ∧
      ∀ i : Fin 3, ((acceptedConns s.trace).map Conn.loop_).count (some i) =
        if i.val < 1 then 2 else 1 := by
  refine ⟨_, rfl, fun i => ?_⟩
  obtain ⟨_, _, _, hcount⟩ := dealt_in_turn 3 _ _ _ ⟨fourAccepts, rfl⟩
  rw [hcount]
  revert i
  decide

end CppInOne.Mymuduo.TcpServer
