import CppInOne.Lib.Transition
import CppInOne.Mymuduo.TcpConnection

/-!
# The output stream of a connection

A connection has two write paths, the direct write of `sendInLoop` and the drain of
`handleWrite`. This file proves that together they hand the bytes of all sends to the
kernel once and in order.
-/

namespace CppInOne.Mymuduo.OutputStream
open Transition TcpConnection

/-! ## The streams behind a trace -/

/-- The bytes of all sends. -/
def sent (t : List Event) : Bytes :=
  t.flatMap fun
    | .send data => data
    | _ => []

/-- The bytes that the kernel has accepted. -/
def accepted (t : List Event) : Bytes :=
  t.flatMap fun
    | .write offered result => offered.take result.accepted
    | _ => []

/-- Some write has failed with `EPIPE` or `ECONNRESET`. -/
def faulted (t : List Event) : Bool :=
  t.any fun
    | .write _ result => result.fault
    | _ => false

@[simp] theorem sent_append (t s : List Event) : sent (t ++ s) = sent t ++ sent s :=
  List.flatMap_append

@[simp] theorem accepted_append (t s : List Event) : accepted (t ++ s) = accepted t ++ accepted s :=
  List.flatMap_append

@[simp] theorem faulted_append (t s : List Event) : faulted (t ++ s) = (faulted t || faulted s) :=
  List.any_append

/-- Quiet events do not show in the streams. -/
theorem streams_quiet {s : List Event} (h : ∀ e ∈ s, e.quiet = true) :
    sent s = [] ∧ accepted s = [] ∧ faulted s = false := by
  refine ⟨List.flatMap_eq_nil_iff.mpr ?_, List.flatMap_eq_nil_iff.mpr ?_,
    List.any_eq_false.mpr ?_⟩
  all_goals
    intro e he
    have hq := h e he
    cases e <;> simp_all [Event.quiet]

theorem sent_went {c c' : TcpConnection} {io : List Event} (h : Went c io c') :
    sent c'.trace = sent c.trace ++ sent io := by
  obtain ⟨quiet, hquiet, htrace⟩ := h
  rw [htrace, sent_append, sent_append, (streams_quiet hquiet).1, List.append_nil]

theorem accepted_went {c c' : TcpConnection} {io : List Event} (h : Went c io c') :
    accepted c'.trace = accepted c.trace ++ accepted io := by
  obtain ⟨quiet, hquiet, htrace⟩ := h
  rw [htrace, accepted_append, accepted_append, (streams_quiet hquiet).2.1, List.append_nil]

theorem faulted_went {c c' : TcpConnection} {io : List Event} (h : Went c io c') :
    faulted c'.trace = (faulted c.trace || faulted io) := by
  obtain ⟨quiet, hquiet, htrace⟩ := h
  rw [htrace, faulted_append, faulted_append, (streams_quiet hquiet).2.2, Bool.or_false]

/-! ## Runs -/

inductive Action where
  | send (buf : Bytes) (result : WriteResult)
  | handleWrite (result : WriteResult)
  | shutdown
  | handleClose (acts : List UserAct)
  deriving DecidableEq, Repr

def Action.apply (c : TcpConnection) : Action → TcpConnection
  | .send buf result => c.send buf result
  | .handleWrite result => c.handleWrite result
  | .shutdown => c.shutdown
  | .handleClose acts => c.handleClose acts

/-- Nothing happens any more once the process has exited. -/
def step (c : TcpConnection) (a : Action) : Option TcpConnection :=
  if c.poller.exited then none else some (a.apply c)

/-- `::write` accepts at most what it is offered, and nothing after `EPIPE` or
`ECONNRESET`. -/
def KernelAllows (c : TcpConnection) : Action → Prop
  | .send buf result =>
    result.accepted ≤ buf.length ∧ (faulted c.trace = true → result.accepted = 0)
  | .handleWrite result =>
    result.accepted ≤ c.outputBuffer_.readableBytes ∧
      (faulted c.trace = true → result.accepted = 0)
  | .shutdown => True
  | .handleClose _ => True

instance (c : TcpConnection) : ∀ a, Decidable (KernelAllows c a)
  | .send _ _ => inferInstanceAs (Decidable (_ ∧ (_ → _)))
  | .handleWrite _ => inferInstanceAs (Decidable (_ ∧ (_ → _)))
  | .shutdown => .isTrue trivial
  | .handleClose _ => .isTrue trivial

/-- `state_` is `kConnected` or `kDisconnecting`. -/
def Live (c : TcpConnection) : Prop := c.state_ = .kConnected ∨ c.state_ = .kDisconnecting

/-! ## The invariant -/

structure Inv (c : TcpConnection) : Prop where
  sound : c.Sound
  /-- Nothing is lost, duplicated or reordered. -/
  stream : faulted c.trace = false →
    accepted c.trace ++ c.outputBuffer_.readable = sent c.trace
  ordered : accepted c.trace <+: sent c.trace
  waiting : Live c → c.Waiting
  idle : ¬ Live c → c.channel_.isWriting = false

theorem inv_established (this : Ptr) (sockfd : Int) (writeComplete highWater : Bool) :
    Inv (established this sockfd writeComplete highWater) where
  sound := sound_established this sockfd writeComplete highWater
  stream _ := rfl
  ordered := List.prefix_rfl
  waiting _ := waiting_established this sockfd writeComplete highWater
  idle hlive := absurd (Or.inl rfl) hlive

/-- One step keeps the invariant when, unless a write faults, what it accepts and leaves in
`outputBuffer_` is what waited there followed by what it sends. -/
theorem Inv.output {c c' : TcpConnection} {io : List Event} (h : Inv c) (hsound : c'.Sound)
    (hwent : Went c io c')
    (hstream : faulted io = false →
      accepted io ++ c'.outputBuffer_.readable = c.outputBuffer_.readable ++ sent io)
    (hfirst : accepted io <+: c.outputBuffer_.readable ++ sent io)
    (hsilent : faulted c.trace = true → accepted io = [])
    (hwaiting : Live c' → c'.Waiting) (hidle : ¬ Live c' → c'.channel_.isWriting = false) :
    Inv c' where
  sound := hsound
  stream hf := by
    rw [faulted_went hwent, Bool.or_eq_false_iff] at hf
    calc accepted c'.trace ++ c'.outputBuffer_.readable
        = accepted c.trace ++ (accepted io ++ c'.outputBuffer_.readable) := by
          rw [accepted_went hwent, List.append_assoc]
      _ = accepted c.trace ++ c.outputBuffer_.readable ++ sent io := by
          rw [hstream hf.2, List.append_assoc]
      _ = sent c'.trace := by rw [h.stream hf.1, sent_went hwent]
  ordered := by
    rw [accepted_went hwent, sent_went hwent]
    -- after a fault the kernel takes nothing more, and the sends only grow
    by_cases hf : faulted c.trace = true
    · rw [hsilent hf, List.append_nil]
      exact h.ordered.trans (List.prefix_append _ _)
    · rw [← h.stream (by simpa using hf), List.append_assoc]
      exact (List.prefix_append_right_inj _).mpr hfirst
  waiting := hwaiting
  idle := hidle

theorem Inv.waiting_send {c : TcpConnection} (h : Inv c) (hstate : c.state_ = .kConnected)
    (buf : Bytes) (result : WriteResult) :
    ((c.emit (.send buf)).sendInLoop buf result).Waiting :=
  Waiting.sendInLoop (c := c.emit (.send buf)) (h.waiting (Or.inl hstate)) (by simp [hstate])
    buf result

/-- Bytes that are not written at once queue up behind those that wait. -/
theorem Inv.send_queued {c : TcpConnection} (h : Inv c) (hstate : c.state_ = .kConnected)
    (hdirect : ¬ c.writesDirectly) (buf : Bytes) (result : WriteResult) :
    Inv (c.send buf result) := by
  have hsound := h.sound.send buf result
  rw [TcpConnection.send, if_pos hstate] at hsound ⊢
  have ho := sendInLoop_queued (c := c.emit (.send buf)) (by simp [hstate]) hdirect buf result
  have hlive : Live ((c.emit (.send buf)).sendInLoop buf result) :=
    Or.inl (ho.state_eq.trans hstate)
  have hsent : sent [.send buf] = buf := List.append_nil buf
  refine h.output hsound ho.went.of_emit (fun _ => ?_) List.nil_prefix (fun _ => rfl)
    (fun _ => h.waiting_send hstate buf result) (absurd hlive)
  rw [ho.out_eq, hsent]
  rfl

/-- With nothing waiting, the bytes go to the kernel and what is left of them waits. -/
theorem Inv.send_direct {c : TcpConnection} (h : Inv c) (hstate : c.state_ = .kConnected)
    (hdirect : c.writesDirectly) {buf : Bytes} {result : WriteResult}
    (hallows : KernelAllows c (.send buf result)) : Inv (c.send buf result) := by
  have hsound := h.sound.send buf result
  rw [TcpConnection.send, if_pos hstate] at hsound ⊢
  have ho := sendInLoop_direct (c := c.emit (.send buf)) (by simp [hstate]) hdirect buf result
  have hlive : Live ((c.emit (.send buf)).sendInLoop buf result) :=
    Or.inl (ho.state_eq.trans hstate)
  have hsent : sent [.send buf, .write buf result] = buf := List.append_nil buf
  have haccepted : accepted [.send buf, .write buf result] = buf.take result.accepted :=
    List.append_nil _
  refine h.output hsound ho.went.of_emit (fun hf => ?_) ?_ (fun hf => ?_)
    (fun _ => h.waiting_send hstate buf result) (absurd hlive)
  · have hfault : result.fault = false := by simpa [faulted] using hf
    rw [ho.out_eq, hsent, haccepted, hdirect.2, unwritten, hfault]
    exact List.take_append_drop _ _
  · rw [hsent, haccepted, hdirect.2]
    exact List.take_prefix _ _
  · rw [haccepted, hallows.2 hf, List.take_zero]

theorem Inv.send {c : TcpConnection} (h : Inv c) {buf : Bytes} {result : WriteResult}
    (hallows : KernelAllows c (.send buf result)) : Inv (c.send buf result) := by
  by_cases hstate : c.state_ = .kConnected
  · by_cases hdirect : c.writesDirectly
    · exact h.send_direct hstate hdirect hallows
    · exact h.send_queued hstate hdirect buf result
  · rw [TcpConnection.send, if_neg hstate]
    exact h

/-- Draining hands over a prefix of what waits. -/
theorem Inv.handleWriteDrain {c : TcpConnection} (h : Inv c) {result : WriteResult}
    (hallows : KernelAllows c (.handleWrite result)) : Inv (c.handleWriteDrain result).1 := by
  have hsound := h.sound.handleWriteDrain result
  by_cases hw : c.channel_.isWriting = true
  · -- a channel that is writing belongs to a live connection
    have hlive : Live c := by
      by_contra hdead
      rw [h.idle hdead] at hw
      cases hw
    have ho := handleWriteDrain_spec hw result
    have hlive' : Live (c.handleWriteDrain result).1 := by
      rw [Live, ho.state_eq]
      exact hlive
    have haccepted : accepted [.write c.outputBuffer_.readable result] =
        c.outputBuffer_.readable.take result.accepted := List.append_nil _
    refine h.output hsound ho.went (fun _ => ?_) ?_ (fun hf => ?_)
      (fun _ => (h.waiting hlive).handleWriteDrain result) (absurd hlive')
    · rw [ho.out_eq, haccepted, List.take_append_drop]
      exact (List.append_nil _).symm
    · rw [haccepted]
      exact (List.take_prefix _ _).trans (List.prefix_append _ _)
    · rw [haccepted, hallows.2 hf, List.take_zero]
  · rw [handleWriteDrain_idle (by simpa using hw)] at hsound ⊢
    exact h

theorem Inv.shutdownInLoop {c : TcpConnection} (h : Inv c) : Inv c.shutdownInLoop := by
  have hsound := h.sound.shutdownInLoop
  rw [TcpConnection.shutdownInLoop] at hsound ⊢
  split at hsound
  · rename_i hw
    rw [if_pos hw]
    exact h.output hsound (went_emit c _) (fun _ => (List.append_nil _).symm) List.nil_prefix
      (fun _ => rfl) h.waiting h.idle
  · rename_i hw
    rw [if_neg hw]
    exact h

theorem Inv.handleWrite {c : TcpConnection} (h : Inv c) {result : WriteResult}
    (hallows : KernelAllows c (.handleWrite result)) : Inv (c.handleWrite result) := by
  rw [TcpConnection.handleWrite]
  dsimp only
  split
  · exact (h.handleWriteDrain hallows).shutdownInLoop
  · exact h.handleWriteDrain hallows

/-- `kDisconnecting` is as live as `kConnected`. -/
theorem Inv.shutdown {c : TcpConnection} (h : Inv c) : Inv c.shutdown := by
  rw [TcpConnection.shutdown]
  split
  · rename_i hstate
    exact Inv.shutdownInLoop ⟨h.sound.setState _, h.stream, h.ordered,
      fun _ => h.waiting (Or.inl hstate), absurd (Or.inr rfl)⟩
  · exact h

/-- Closing gives up what waits, but keeps it in `outputBuffer_`. -/
theorem Inv.handleClose {c : TcpConnection} (h : Inv c) (acts : List UserAct) :
    Inv (c.handleClose acts) := by
  obtain ⟨hstate, hout, hidle, _, htrace⟩ := h.sound.handleClose_spec acts
  have hwent : Went c [.handleClose c.outputBuffer_.readableBytes,
      .epollCtl (c.channel_.index_.updateOp kNoneEvent) c.channel_.fd_ true,
      .connectionCallback false, .closeCallback] (c.handleClose acts) :=
    ⟨[], fun _ he => absurd he List.not_mem_nil, by rw [htrace, List.append_nil]⟩
  have hdead : ¬ Live (c.handleClose acts) := by
    rw [Live, hstate]
    decide
  refine h.output (h.sound.handleClose acts) hwent (fun _ => ?_) List.nil_prefix
    (fun _ => rfl) (fun hlive => absurd hlive hdead) (fun _ => hidle)
  rw [hout]
  exact (List.append_nil _).symm

theorem Inv.step {c : TcpConnection} {a : Action} (h : Inv c) (hallows : KernelAllows c a) :
    ∃ c', step c a = some c' ∧ Inv c' := by
  refine ⟨a.apply c, by rw [OutputStream.step, if_neg (by rw [h.sound.alive]; decide)], ?_⟩
  cases a with
  | send buf result => exact h.send hallows
  | handleWrite result => exact h.handleWrite hallows
  | shutdown => exact h.shutdown
  | handleClose acts => exact h.handleClose acts

/-- **No loss, duplication or reordering on the output side.** Every run of sends,
`handleWrite`, `shutdown` and `handleClose` against a kernel that keeps its contract goes
through. While no write has failed with `EPIPE` or `ECONNRESET`, the bytes the kernel has
accepted followed by those in `outputBuffer_` are the bytes of all sends made while
connected; afterwards the accepted bytes stay a prefix of them. In `kConnected` and
`kDisconnecting` the channel is writing exactly when `outputBuffer_` is non-empty. -/
theorem output_stream (this : Ptr) (sockfd : Int) (writeComplete highWater : Bool)
    (as : List Action)
    (hallows : Guarded step KernelAllows (established this sockfd writeComplete highWater) as) :
    ∃ c, run step (established this sockfd writeComplete highWater) as = some c ∧
      (faulted c.trace = false →
        accepted c.trace ++ c.outputBuffer_.readable = sent c.trace) ∧
      accepted c.trace <+: sent c.trace ∧
      (c.state_ = .kConnected ∨ c.state_ = .kDisconnecting →
        (c.channel_.isWriting = true ↔ c.outputBuffer_.readable ≠ [])) := by
  obtain ⟨c, hrun, hc⟩ := run_total (fun _ _ h ha => Inv.step h ha)
    (inv_established this sockfd writeComplete highWater) hallows
  exact ⟨c, hrun, hc.stream, hc.ordered, hc.waiting⟩

/-- Partial writes, a send behind waiting bytes, a shutdown before the last drain and a write
that faults. -/
theorem output_stream_partial :
    ∃ c, run step (established 7 7 true true)
        [.send [1, 2, 3] (.wrote 1), .send [4] (.failed .EWOULDBLOCK), .handleWrite (.wrote 2),
          .shutdown, .handleWrite (.failed .EPIPE), .handleClose []] = some c ∧
      accepted c.trace <+: sent c.trace := by
  obtain ⟨c, hrun, _, hprefix, _⟩ := output_stream 7 7 true true
    [.send [1, 2, 3] (.wrote 1), .send [4] (.failed .EWOULDBLOCK), .handleWrite (.wrote 2),
      .shutdown, .handleWrite (.failed .EPIPE), .handleClose []] (by decide +kernel)
  exact ⟨c, hrun, hprefix⟩

end CppInOne.Mymuduo.OutputStream
