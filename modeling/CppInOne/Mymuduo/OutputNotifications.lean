import CppInOne.Lib.Trace
import CppInOne.Mymuduo.OutputStream

/-!
# The notifications of the output side

`sendInLoop` and `handleWrite` queue the two optional callbacks. This file proves, for the runs of
`OutputStream` in which no write fails with `EPIPE` or `ECONNRESET`, that `writeCompleteCallback_`
is queued when everything has been written, and `highWaterMarkCallback_` when the length of
`outputBuffer_` crosses the mark.

## Main definitions

- `Complete` — the rule for `writeCompleteCallback_`
- `Exact` — what a step queues

## Main results

- `notifications_exact`
-/

namespace CppInOne.Mymuduo.OutputNotifications
open Transition Trace TcpConnection OutputStream

/-- The functors that a trace has queued. -/
def queued (t : List Event) : List Functor :=
  t.filterMap fun
    | .queueInLoop functor => some functor
    | _ => none

@[simp] theorem queued_append (t s : List Event) : queued (t ++ s) = queued t ++ queued s :=
  List.filterMap_append

/-- When `writeCompleteCallback_` is queued, the kernel has accepted all bytes of all sends. -/
def Complete (pre : List Event) : Event → Prop
  | .queueInLoop .writeCompleteCallback => accepted pre = sent pre
  | _ => True

def isHighWater : Functor → Bool
  | .highWaterMarkCallback _ => true
  | .writeCompleteCallback => false

/-- What a step from `c` to `c'` queues: one `writeCompleteCallback_` if it empties
`outputBuffer_`, and a `highWaterMarkCallback_` with the new length exactly if the length gets from
below the mark to it or above it. -/
def Exact (c c' : TcpConnection) : Prop :=
  ∃ events, c'.trace = c.trace ++ events ∧
    (c.outputBuffer_.readable ≠ [] → c'.outputBuffer_.readable = [] →
      (queued events).count .writeCompleteCallback = 1) ∧
    (queued events).filter isHighWater =
      if c.outputBuffer_.readableBytes < c.highWaterMark_ ∧
          c.highWaterMark_ ≤ c'.outputBuffer_.readableBytes then
        [.highWaterMarkCallback c'.outputBuffer_.readableBytes]
      else []

/-- A connection with both callbacks; the constructor sets the mark to 64 MiB. -/
def start (this : Ptr) (sockfd : Int) (mark : Nat) : TcpConnection :=
  { established this sockfd true true with highWaterMark_ := mark }

/-- The kernel keeps its contract, and no write fails with `EPIPE` or `ECONNRESET`. -/
def Faultless (c : TcpConnection) (a : Action) : Prop :=
  KernelAllows c a ∧
    match a with
    | .send _ result => result.fault = false
    | .handleWrite result => result.fault = false
    | .shutdown => True
    | .handleClose _ => True

instance (c : TcpConnection) : ∀ a, Decidable (Faultless c a)
  | .send _ _ => inferInstanceAs (Decidable (_ ∧ _ = _))
  | .handleWrite _ => inferInstanceAs (Decidable (_ ∧ _ = _))
  | .shutdown => inferInstanceAs (Decidable (_ ∧ True))
  | .handleClose _ => inferInstanceAs (Decidable (_ ∧ True))

/-! ## What the functions queue -/

def settings (c : TcpConnection) : Nat × Bool × Bool :=
  (c.highWaterMark_, c.writeCompleteCallback_, c.highWaterMarkCallback_)

/-- From `c` to `c'` the events `io` happened, and after them quiet ones that queued
`functors`. -/
structure Noted (c : TcpConnection) (io : List Event) (functors : List Functor)
    (c' : TcpConnection) : Prop where
  trace : ∃ quiet, (∀ e ∈ quiet, Event.quiet e = true) ∧ c'.trace = c.trace ++ io ++ quiet ∧
    queued quiet = functors
  settings_eq : settings c' = settings c

section Noted

variable {c c₁ c' : TcpConnection} {io : List Event} {functors functors' : List Functor}

theorem Noted.refl (c : TcpConnection) : Noted c [] [] c :=
  ⟨⟨[], fun _ he => absurd he List.not_mem_nil, by simp, rfl⟩, rfl⟩

theorem noted_emit (c : TcpConnection) (e : Event) : Noted c [e] [] (c.emit e) :=
  ⟨⟨[], fun _ he => absurd he List.not_mem_nil, by simp, rfl⟩, rfl⟩

theorem noted_queueInLoop (c : TcpConnection) (functor : Functor) :
    Noted c [] [functor] (c.queueInLoop functor) :=
  ⟨⟨[.queueInLoop functor], fun _ he => List.mem_singleton.mp he ▸ rfl, by simp [queueInLoop],
    rfl⟩, rfl⟩

theorem noted_setEvents (c : TcpConnection) (events : Channel → Mask) :
    Noted c [] [] (c.onChannel fun p this ch => ch.setEvents p this (events ch)) := by
  obtain ⟨op, ok, htrace⟩ := c.trace_setEvents events
  refine ⟨⟨[.epollCtl op c.channel_.fd_ ok], fun e he => ?_, ?_, rfl⟩, rfl⟩
  · rw [List.mem_singleton.mp he]
    rfl
  · rw [htrace, List.append_nil]

theorem Noted.silent (h : Noted c io functors c₁) (h' : Noted c₁ [] functors' c') :
    Noted c io (functors ++ functors') c' := by
  obtain ⟨⟨quiet, hquiet, htrace, rfl⟩, hsettings⟩ := h
  obtain ⟨⟨quiet', hquiet', htrace', rfl⟩, hsettings'⟩ := h'
  refine ⟨⟨quiet ++ quiet', fun e he => ?_, by rw [htrace', htrace]; simp, by simp⟩,
    hsettings'.trans hsettings⟩
  obtain he | he := List.mem_append.mp he
  · exact hquiet e he
  · exact hquiet' e he

theorem Noted.of_emit {e : Event} (h : Noted (c.emit e) io functors c') :
    Noted c (e :: io) functors c' := by
  obtain ⟨⟨quiet, hquiet, htrace, hqueued⟩, hsettings⟩ := h
  exact ⟨⟨quiet, hquiet, by rw [htrace]; simp, hqueued⟩, hsettings⟩

/-- A change that shows neither in the trace nor in the settings. -/
theorem Noted.same (h : Noted c io functors c₁) (htrace : c'.trace = c₁.trace)
    (hsettings : settings c' = settings c₁) : Noted c io functors c' :=
  ⟨by rw [htrace]; exact h.trace, hsettings.trans h.settings_eq⟩

theorem Noted.went (h : Noted c io functors c') : Went c io c' := by
  obtain ⟨⟨quiet, hquiet, htrace, -⟩, -⟩ := h
  exact ⟨quiet, hquiet, htrace⟩

end Noted

/-- The notification for `n` more bytes. -/
def crossing (c : TcpConnection) (n : Nat) : List Functor :=
  if c.highWaterMark_ ≤ c.outputBuffer_.readableBytes + n ∧
      c.outputBuffer_.readableBytes < c.highWaterMark_ ∧ c.highWaterMarkCallback_ then
    [.highWaterMarkCallback (c.outputBuffer_.readableBytes + n)]
  else []

theorem noted_notifyHighWaterMark (c : TcpConnection) (n : Nat) :
    Noted c [] (crossing c n) (c.notifyHighWaterMark n) := by
  rw [notifyHighWaterMark, crossing]
  split
  · exact noted_queueInLoop c _
  · exact Noted.refl c

theorem crossing_zero (c : TcpConnection) : crossing c 0 = [] := by
  refine if_neg ?_
  rintro ⟨hge, hlt, -⟩
  omega

theorem noted_bufferRemaining (c : TcpConnection) (rest : Bytes) :
    Noted c [] (crossing c rest.length) (c.bufferRemaining rest) := by
  by_cases hrest : 0 < rest.length
  · have hbuffer : Noted c [] (crossing c rest.length) { c.notifyHighWaterMark rest.length with
        outputBuffer_ := (c.notifyHighWaterMark rest.length).outputBuffer_.append rest } :=
      (noted_notifyHighWaterMark c rest.length).same rfl rfl
    rw [bufferRemaining, if_pos hrest]
    dsimp only
    split
    · exact hbuffer
    · have henable := hbuffer.silent (noted_setEvents _ fun ch => ch.events_ ||| kWriteEvent)
      rwa [List.append_nil] at henable
  · have hzero : rest.length = 0 := by omega
    rw [bufferRemaining, if_neg hrest, hzero, crossing_zero]
    exact Noted.refl c

/-- What `sendInLoop` queues right after `::write`. -/
def completed (c : TcpConnection) (data : Bytes) : WriteResult → List Functor
  | .wrote nwrote =>
    if data.length - nwrote = 0 ∧ c.writeCompleteCallback_ then [.writeCompleteCallback] else []
  | .failed _ => []

theorem noted_sendInLoop_direct {c : TcpConnection} (hstate : c.state_ ≠ .kDisconnceted)
    (hdirect : c.writesDirectly) (data : Bytes) {result : WriteResult}
    (hfault : result.fault = false) :
    Noted c [.write data result]
      (completed c data result ++ crossing c (unwritten data result).length)
      (c.sendInLoop data result) := by
  have hzero : c.outputBuffer_.readableBytes = 0 :=
    ValidBuffer.readableBytes_eq_zero.mpr hdirect.2
  have hwrite := noted_emit c (.write data result)
  rw [sendInLoop, if_neg hstate, if_pos ⟨by simp [hdirect.1], hzero⟩]
  cases result with
  | wrote nwrote =>
    dsimp only
    split
    · rename_i hdone
      have hcompleted : completed c data (.wrote nwrote) = [.writeCompleteCallback] :=
        if_pos hdone
      rw [hcompleted]
      exact (hwrite.silent (noted_queueInLoop _ .writeCompleteCallback)).silent
        (noted_bufferRemaining _ (data.drop nwrote))
    · rename_i hmore
      have hcompleted : completed c data (.wrote nwrote) = [] := if_neg hmore
      rw [hcompleted]
      exact hwrite.silent (noted_bufferRemaining _ (data.drop nwrote))
  | failed errno =>
    have hkeep : ¬ (errno = .EPIPE ∨ errno = .ECONNRESET) := by
      rintro (rfl | rfl)
      · cases hfault
      · cases hfault
    have hunwritten : unwritten data (.failed errno) = data := by
      rw [unwritten, hfault]
      rfl
    rw [hunwritten]
    simp only [if_neg hkeep]
    exact hwrite.silent (noted_bufferRemaining _ _)

theorem noted_sendInLoop_queued {c : TcpConnection} (hstate : c.state_ ≠ .kDisconnceted)
    (hdirect : ¬ c.writesDirectly) (data : Bytes) (result : WriteResult) :
    Noted c [] (crossing c data.length) (c.sendInLoop data result) := by
  have htest : ¬ (¬ c.channel_.isWriting = true ∧ c.outputBuffer_.readableBytes = 0) := by
    rintro ⟨hw, hzero⟩
    exact hdirect ⟨by simpa using hw, ValidBuffer.readableBytes_eq_zero.mp hzero⟩
  rw [sendInLoop, if_neg hstate, if_neg htest]
  exact noted_bufferRemaining c data

/-- What `handleWrite` queues when it has drained `outputBuffer_`. -/
def drained (c : TcpConnection) (result : WriteResult) : List Functor :=
  if 0 < result.accepted ∧ c.outputBuffer_.readable.drop result.accepted = [] ∧
      c.writeCompleteCallback_ then
    [.writeCompleteCallback]
  else []

theorem noted_handleWriteDrain {c : TcpConnection} (hw : c.channel_.isWriting = true)
    (result : WriteResult) :
    Noted c [.write c.outputBuffer_.readable result] (drained c result)
      (c.handleWriteDrain result).1 := by
  have hwrite := noted_emit c (.write c.outputBuffer_.readable result)
  rw [handleWriteDrain, if_pos hw, ValidBuffer.writeFd_eq]
  cases result with
  | failed errno =>
    have hnone : drained c (.failed errno) = [] := if_neg fun h => absurd h.1 (Nat.lt_irrefl 0)
    rw [hnone]
    exact hwrite
  | wrote n =>
    have hleft := retrieve_empty_iff c.outputBuffer_ n
    dsimp only
    split
    · rename_i hpos
      split
      · rename_i hempty
        have hretrieve : Noted c [.write c.outputBuffer_.readable (.wrote n)] []
            { c.emit (.write c.outputBuffer_.readable (.wrote n)) with
              outputBuffer_ := c.outputBuffer_.retrieve n } := hwrite.same rfl rfl
        have hdisable := hretrieve.silent
          (noted_setEvents _ fun ch => ch.events_ &&& ~~~kWriteEvent)
        rw [List.append_nil] at hdisable
        split
        · rename_i hcallback
          have hdrained : drained c (.wrote n) = [.writeCompleteCallback] :=
            if_pos ⟨hpos, hleft.mp hempty, hcallback⟩
          rw [hdrained]
          exact hdisable.silent (noted_queueInLoop _ .writeCompleteCallback)
        · rename_i hcallback
          have hdrained : drained c (.wrote n) = [] := if_neg fun h => hcallback h.2.2
          rw [hdrained]
          exact hdisable
      · rename_i hmore
        have hdrained : drained c (.wrote n) = [] := if_neg fun h => hmore (hleft.mpr h.2.1)
        rw [hdrained]
        exact hwrite.same rfl rfl
    · rename_i hzero
      have hdrained : drained c (.wrote n) = [] := if_neg fun h => hzero h.1
      rw [hdrained]
      exact hwrite

/-- `shutdownInLoop` queues nothing, and leaves `outputBuffer_` alone. -/
theorem noted_shutdownInLoop (c : TcpConnection) :
    ∃ io, queued io = [] ∧ faulted io = false ∧ Noted c io [] c.shutdownInLoop ∧
      c.shutdownInLoop.outputBuffer_ = c.outputBuffer_ := by
  rw [shutdownInLoop]
  split
  · exact ⟨_, rfl, rfl, noted_emit c _, rfl⟩
  · exact ⟨[], rfl, rfl, Noted.refl c, rfl⟩

/-! ## One step -/

/-- The invariant, with the settings of the start. -/
structure Noting (mark : Nat) (c : TcpConnection) : Prop where
  inv : Inv c
  clean : faulted c.trace = false
  rule : Justified Complete c.trace
  settings_eq : settings c = (mark, true, true)

theorem complete_of_unqueued {io : List Event} (hio : queued io = []) :
    ∀ e ∈ io, ∀ pre, Complete pre e := by
  intro e he pre
  have hnone := List.filterMap_eq_nil_iff.mp hio e he
  cases e with
  | queueInLoop functor => cases hnone
  | _ => trivial

section Step

variable {mark : Nat} {c c' : TcpConnection} {io : List Event} {functors : List Functor}

/-- The completion callback is queued where nothing is left to be written. -/
theorem Noting.noted (h : Noting mark c) (hn : Noted c io functors c') (hinv : Inv c')
    (hio : queued io = []) (hfault : faulted io = false)
    (hdone : .writeCompleteCallback ∈ functors → c'.outputBuffer_.readable = []) :
    Noting mark c' := by
  have hclean : faulted c'.trace = false := by
    rw [faulted_went hn.went, h.clean, hfault]
    rfl
  have hstream := hinv.stream hclean
  rw [accepted_went hn.went, sent_went hn.went, ← accepted_append, ← sent_append] at hstream
  obtain ⟨⟨quiet, hquiet, htrace, rfl⟩, hsettings⟩ := hn
  refine ⟨hinv, hclean, ?_, hsettings.trans h.settings_eq⟩
  rw [htrace]
  refine (h.rule.append_free (complete_of_unqueued hio)).append fun pre e post heq => ?_
  cases e with
  | queueInLoop functor =>
    cases functor with
    | writeCompleteCallback =>
      -- the quiet events before do not show in the streams
      have hbefore := streams_quiet fun e he => hquiet e (heq ▸ List.mem_append_left _ he)
      have hempty := hdone (by rw [heq]; simp [queued])
      rw [hempty, List.append_nil] at hstream
      show accepted (c.trace ++ io ++ pre) = sent (c.trace ++ io ++ pre)
      rw [accepted_append, sent_append _ pre, hbefore.1, hbefore.2.1, hstream]
    | highWaterMarkCallback len => trivial
  | _ => trivial

theorem Noted.exact (hn : Noted c io functors c') (hio : queued io = [])
    (hcount : c.outputBuffer_.readable ≠ [] → c'.outputBuffer_.readable = [] →
      functors.count .writeCompleteCallback = 1)
    (hcross : functors.filter isHighWater =
      if c.outputBuffer_.readableBytes < c.highWaterMark_ ∧
          c.highWaterMark_ ≤ c'.outputBuffer_.readableBytes then
        [.highWaterMarkCallback c'.outputBuffer_.readableBytes]
      else []) : Exact c c' := by
  obtain ⟨⟨quiet, -, htrace, rfl⟩, -⟩ := hn
  refine ⟨io ++ quiet, by rw [htrace, List.append_assoc], ?_⟩
  rw [queued_append, hio, List.nil_append]
  exact ⟨hcount, hcross⟩

/-- A step that queues nothing and leaves `outputBuffer_` alone. -/
theorem Noting.unqueued (h : Noting mark c) (hn : Noted c io [] c') (hinv : Inv c')
    (hio : queued io = []) (hfault : faulted io = false)
    (hout : c'.outputBuffer_ = c.outputBuffer_) : Noting mark c' ∧ Exact c c' := by
  refine ⟨h.noted hn hinv hio hfault nofun, hn.exact hio (fun hne hempty => ?_) ?_⟩
  · rw [hout] at hempty
    exact absurd hempty hne
  · rw [hout, if_neg fun hcross => absurd hcross.1 (Nat.not_lt.mpr hcross.2)]
    rfl

theorem filter_crossing (c : TcpConnection) (n : Nat) :
    (crossing c n).filter isHighWater = crossing c n := by
  rw [crossing]
  split <;> rfl

/-- The notification is due exactly at the crossing, with the new length. -/
theorem crossing_eq {n : Nat} (hcallback : c.highWaterMarkCallback_ = true)
    (hlength : c'.outputBuffer_.readableBytes = c.outputBuffer_.readableBytes + n) :
    crossing c n = if c.outputBuffer_.readableBytes < c.highWaterMark_ ∧
        c.highWaterMark_ ≤ c'.outputBuffer_.readableBytes then
      [.highWaterMarkCallback c'.outputBuffer_.readableBytes] else [] := by
  rw [crossing, hlength]
  refine if_congr ⟨fun h => ⟨h.2.1, h.1⟩, fun h => ⟨h.2, h.1, hcallback⟩⟩ rfl rfl

theorem Noting.callbacks (h : Noting mark c) :
    c.highWaterMark_ = mark ∧ c.writeCompleteCallback_ = true ∧
      c.highWaterMarkCallback_ = true := by
  obtain ⟨hmark, hrest⟩ := Prod.mk.inj h.settings_eq
  exact ⟨hmark, Prod.mk.inj hrest⟩

theorem completed_spec (c : TcpConnection) (data : Bytes) {result : WriteResult}
    (hfault : result.fault = false) :
    (completed c data result).filter isHighWater = [] ∧
      (.writeCompleteCallback ∈ completed c data result → unwritten data result = []) := by
  cases result with
  | failed errno => exact ⟨rfl, fun hmem => absurd hmem List.not_mem_nil⟩
  | wrote nwrote =>
    rw [completed]
    split
    · rename_i hdone
      refine ⟨rfl, fun _ => ?_⟩
      rw [unwritten, hfault]
      exact List.drop_eq_nil_of_le (by rw [WriteResult.accepted_wrote]; omega)
    · exact ⟨rfl, fun hmem => absurd hmem List.not_mem_nil⟩

theorem not_mem_crossing (c : TcpConnection) (n : Nat) :
    .writeCompleteCallback ∉ crossing c n := by
  rw [crossing]
  split <;> simp

theorem Noting.send (h : Noting mark c) {buf : Bytes} {result : WriteResult}
    (hok : Faultless c (.send buf result)) :
    Noting mark (c.send buf result) ∧ Exact c (c.send buf result) := by
  obtain ⟨-, -, hcallback⟩ := h.callbacks
  have hinv := h.inv.send hok.1
  by_cases hstate : c.state_ = .kConnected
  · have hlive : (c.emit (.send buf)).state_ ≠ .kDisconnceted := by simp [hstate]
    rw [TcpConnection.send, if_pos hstate] at hinv ⊢
    by_cases hdirect : c.writesDirectly
    · -- nothing waits: what the kernel does not take is the new content
      have hn := (noted_sendInLoop_direct hlive hdirect buf hok.2).of_emit
      have hout := (sendInLoop_direct hlive hdirect buf result).out_eq
      obtain ⟨hfilter, hdone⟩ := completed_spec (c.emit (.send buf)) buf hok.2
      have hio : queued [.send buf, .write buf result] = [] := rfl
      have hfault : faulted [.send buf, .write buf result] = false := by
        simp [faulted, hok.2]
      have hlength : ((c.emit (.send buf)).sendInLoop buf result).outputBuffer_.readableBytes =
          c.outputBuffer_.readableBytes + (unwritten buf result).length := by
        rw [ValidBuffer.readableBytes_eq, ValidBuffer.readableBytes_eq, hout, hdirect.2]
        simp
      refine ⟨h.noted hn hinv hio hfault fun hmem => ?_,
        hn.exact hio (fun hne => absurd hdirect.2 hne) ?_⟩
      · obtain hmem | hmem := List.mem_append.mp hmem
        · rw [hout]
          exact hdone hmem
        · exact absurd hmem (not_mem_crossing _ _)
      · rw [List.filter_append, hfilter, List.nil_append, filter_crossing]
        exact crossing_eq (c := c) hcallback hlength
    · have hn := (noted_sendInLoop_queued hlive hdirect buf result).of_emit
      have hout : _ = c.outputBuffer_.readable ++ buf :=
        (sendInLoop_queued hlive hdirect buf result).out_eq
      have hlength : ((c.emit (.send buf)).sendInLoop buf result).outputBuffer_.readableBytes =
          c.outputBuffer_.readableBytes + buf.length := by
        rw [ValidBuffer.readableBytes_eq, ValidBuffer.readableBytes_eq, hout, List.length_append]
      refine ⟨h.noted hn hinv rfl rfl fun hmem => absurd hmem (not_mem_crossing _ _),
        hn.exact rfl (fun hne hempty => ?_) ?_⟩
      · rw [hout] at hempty
        exact absurd (List.append_eq_nil_iff.mp hempty).1 hne
      · rw [filter_crossing]
        exact crossing_eq (c := c) hcallback hlength
  · rw [TcpConnection.send, if_neg hstate]
    exact h.unqueued (Noted.refl c) h.inv rfl rfl rfl

theorem Noting.handleWriteDrain (h : Noting mark c) {result : WriteResult}
    (hok : Faultless c (.handleWrite result)) :
    Noting mark (c.handleWriteDrain result).1 ∧ Exact c (c.handleWriteDrain result).1 := by
  obtain ⟨-, hcallback, -⟩ := h.callbacks
  have hinv := h.inv.handleWriteDrain hok.1
  by_cases hw : c.channel_.isWriting = true
  · have hn := noted_handleWriteDrain hw result
    have hout := (handleWriteDrain_spec hw result).out_eq
    have hfault : faulted [.write c.outputBuffer_.readable result] = false := by
      simp [faulted, hok.2]
    have hle : (c.handleWriteDrain result).1.outputBuffer_.readableBytes ≤
        c.outputBuffer_.readableBytes := by
      rw [ValidBuffer.readableBytes_eq, ValidBuffer.readableBytes_eq, hout, List.length_drop]
      exact Nat.sub_le _ _
    refine ⟨h.noted hn hinv rfl hfault fun hmem => ?_, hn.exact rfl (fun hne hempty => ?_) ?_⟩
    · rw [drained] at hmem
      split at hmem
      · rename_i hdone
        rw [hout]
        exact hdone.2.1
      · cases hmem
    · -- what was not empty has been emptied by accepted bytes
      rw [hout] at hempty
      have hpos : 0 < result.accepted := by
        by_contra hzero
        rw [Nat.eq_zero_of_not_pos hzero] at hempty
        exact hne hempty
      rw [drained, if_pos ⟨hpos, hempty, hcallback⟩]
      rfl
    · have hnone : (drained c result).filter isHighWater = [] := by
        rw [drained]
        split <;> rfl
      rw [hnone, if_neg]
      rintro ⟨hlt, hge⟩
      omega
  · rw [handleWriteDrain_idle (by simpa using hw)]
    exact h.unqueued (Noted.refl c) h.inv rfl rfl rfl

theorem Noting.handleWrite (h : Noting mark c) {result : WriteResult}
    (hok : Faultless c (.handleWrite result)) :
    Noting mark (c.handleWrite result) ∧ Exact c (c.handleWrite result) := by
  obtain ⟨hnoting, hexact⟩ := h.handleWriteDrain hok
  have hinv := h.inv.handleWrite hok.1
  rw [TcpConnection.handleWrite] at hinv ⊢
  dsimp only at hinv ⊢
  split at hinv
  · rename_i hshutdown
    rw [if_pos hshutdown]
    obtain ⟨io, hio, hfault, hn, hout⟩ := noted_shutdownInLoop (c.handleWriteDrain result).1
    obtain ⟨events, htrace, hcount, hcross⟩ := hexact
    obtain ⟨⟨quiet, hquiet, htrace', hqueued⟩, -⟩ := id hn
    refine ⟨(hnoting.unqueued hn hinv hio hfault hout).1, events ++ (io ++ quiet), ?_, ?_⟩
    · rw [htrace', htrace]
      simp
    · rw [queued_append, queued_append, hio, hqueued, List.append_nil, List.append_nil, hout]
      exact ⟨hcount, hcross⟩
  · rename_i hopen
    rw [if_neg hopen]
    exact ⟨hnoting, hexact⟩

theorem Noting.shutdown (h : Noting mark c) :
    Noting mark c.shutdown ∧ Exact c c.shutdown := by
  have hinv := h.inv.shutdown
  rw [TcpConnection.shutdown] at hinv ⊢
  split at hinv
  · rename_i hstate
    rw [if_pos hstate]
    obtain ⟨io, hio, hfault, hn, hout⟩ := noted_shutdownInLoop (c.setState .kDisconnecting)
    exact h.unqueued ⟨hn.trace, hn.settings_eq⟩ hinv hio hfault hout
  · rename_i hstate
    rw [if_neg hstate]
    exact h.unqueued (Noted.refl c) h.inv rfl rfl rfl

theorem Noting.handleClose (h : Noting mark c) (acts : List UserAct) :
    Noting mark (c.handleClose acts) ∧ Exact c (c.handleClose acts) := by
  obtain ⟨-, hout, -, -, htrace⟩ := h.inv.sound.handleClose_spec acts
  obtain ⟨input, heq⟩ := c.handleClose_eq acts
  have hsettings : settings (c.handleClose acts) = settings c := by
    rw [heq]
    rfl
  have hn : Noted c _ [] (c.handleClose acts) :=
    ⟨⟨[], fun _ he => absurd he List.not_mem_nil, by rw [htrace, List.append_nil], rfl⟩,
      hsettings⟩
  exact h.unqueued hn (h.inv.handleClose acts) rfl rfl hout

/-- **Step lemma**: a step queues exactly what it has to, and keeps the invariant. -/
theorem Noting.step (h : Noting mark c) (a : Action) (hok : Faultless c a) :
    ∃ c', step c a = some c' ∧ Noting mark c' ∧ Exact c c' := by
  refine ⟨a.apply c, by rw [OutputStream.step, if_neg (by rw [h.inv.sound.alive]; decide)], ?_⟩
  cases a with
  | send buf result => exact h.send hok
  | handleWrite result => exact h.handleWrite hok
  | shutdown => exact h.shutdown
  | handleClose acts => exact h.handleClose acts

end Step

theorem noting_start (this : Ptr) (sockfd : Int) (mark : Nat) :
    Noting mark (start this sockfd mark) := by
  have h := inv_established this sockfd true true
  refine ⟨⟨⟨h.sound.synced, h.sound.alive⟩, h.stream, h.ordered, h.waiting, h.idle⟩, rfl, ?_, rfl⟩
  have htrace : (start this sockfd mark).trace = _ := trace_established this sockfd true true
  rw [htrace]
  exact justified_of_free (complete_of_unqueued rfl)

/-- **The notifications are exact** in every run against a kernel that keeps its contract, without
`EPIPE` and `ECONNRESET`. After the steps `as` and one more step `a`: whenever
`writeCompleteCallback_` was queued, the kernel had accepted all bytes of all sends; if `a` empties
`outputBuffer_`, it queues the callback once; and it queues `highWaterMarkCallback_`, with the new
length, exactly if the length was below the mark and is not any more. -/
theorem notifications_exact (this : Ptr) (sockfd : Int) (mark : Nat) (as : List Action)
    (a : Action) (hok : Guarded step Faultless (start this sockfd mark) (as ++ [a])) :
    ∃ c c', run step (start this sockfd mark) as = some c ∧ step c a = some c' ∧
      c.highWaterMark_ = mark ∧ Justified Complete c'.trace ∧ Exact c c' := by
  obtain ⟨has, ha⟩ := guarded_append.mp hok
  obtain ⟨c, hrun, hc⟩ := run_total (fun c a h hok => (h.step a hok).imp fun _ h => ⟨h.1, h.2.1⟩)
    (noting_start this sockfd mark) has
  obtain ⟨c', hstep, hnoting, hexact⟩ := hc.step a (ha c hrun).1
  exact ⟨c, c', hrun, hstep, hc.callbacks.1, hnoting.rule, hexact⟩

/-- Bytes cross a mark of three twice, and are drained in between. -/
theorem notifications_exact_twice :
    ∃ c c', run step (start 7 7 3)
        [.send [1, 2, 3, 4] (.wrote 1), .handleWrite (.wrote 3), .send [5] (.failed .EWOULDBLOCK),
          .send [6] (.wrote 0)] = some c ∧
      step c (.send [7, 8] (.wrote 0)) = some c' ∧ Exact c c' := by
  obtain ⟨c, c', hrun, hstep, -, -, hexact⟩ := notifications_exact 7 7 3
    [.send [1, 2, 3, 4] (.wrote 1), .handleWrite (.wrote 3), .send [5] (.failed .EWOULDBLOCK),
      .send [6] (.wrote 0)] (.send [7, 8] (.wrote 0)) (by decide +kernel)
  exact ⟨c, c', hrun, hstep, hexact⟩

end CppInOne.Mymuduo.OutputNotifications
