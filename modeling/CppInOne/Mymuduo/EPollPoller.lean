import Mathlib.Data.Finset.Basic
import Mathlib.Logic.Function.Basic
import CppInOne.Lib.Transition
import CppInOne.Mymuduo.Channel

/-!
# The epoll poller

Three records describe which file descriptors are watched: `index_` in each channel, the
map `channels_` of the poller and the interest list of the kernel. This file models the
operations that update them and proves that they never disagree.
-/

namespace CppInOne.Mymuduo
open Transition Function

/-- The kernel's interest list: for each watched descriptor its mask and user pointer. -/
abbrev InterestList := Int → Option (Mask × Ptr)

/-- `epoll_ctl`: ADD fails on a present descriptor, MOD and DEL on an absent one. -/
def epollCtl (list : InterestList) (op : EpollOp) (fd : Int) (event : Mask × Ptr) :
    Option InterestList :=
  match op, list fd with
  | .ADD, none => some (update list fd (some event))
  | .MOD, some _ => some (update list fd (some event))
  | .DEL, some _ => some (update list fd none)
  | _, _ => none

/-- The poller with the interest list behind its `epollfd_` and the trace of its thread.
`exited` is set by `LOG_FATAL`, which ends the process. -/
structure EPollPoller where
  channels_ : Int → Option Ptr := fun _ => none
  interest : InterestList := fun _ => none
  trace : List Event := []
  exited : Bool := false

namespace EPollPoller

def emit (p : EPollPoller) (e : Event) : EPollPoller := { p with trace := p.trace ++ [e] }

/-- `update`: a failing DEL is logged, a failing ADD or MOD is fatal. -/
def update (p : EPollPoller) (op : EpollOp) (this : Ptr) (c : Channel) : EPollPoller :=
  match epollCtl p.interest op c.fd_ (c.events_, this) with
  | some list => { p with interest := list }.emit (.epollCtl op c.fd_ true)
  | none => { p with exited := p.exited || op != EpollOp.DEL }.emit (.epollCtl op c.fd_ false)

def updateChannel (p : EPollPoller) (this : Ptr) (c : Channel) : EPollPoller × Channel :=
  if c.index_ = .kNew ∨ c.index_ = .kDeleted then
    let p := if c.index_ = .kNew then
        { p with channels_ := Function.update p.channels_ c.fd_ (some this) } else p
    let c := { c with index_ := .kAdded }
    (p.update .ADD this c, c)
  else if c.isNoneEvent then
    (p.update .DEL this c, { c with index_ := .kDeleted })
  else
    (p.update .MOD this c, c)

def removeChannel (p : EPollPoller) (this : Ptr) (c : Channel) : EPollPoller × Channel :=
  let p := { p with channels_ := Function.update p.channels_ c.fd_ none }
  let p := if c.index_ = .kAdded then p.update .DEL this c else p
  (p, { c with index_ := .kNew })

end EPollPoller

/-! ## The operations of a channel -/

namespace Channel

/-- Set `events_`, then `update()`. -/
def setEvents (p : EPollPoller) (this : Ptr) (c : Channel) (events : Mask) :
    EPollPoller × Channel :=
  p.updateChannel this { c with events_ := events }

def enableReading (p : EPollPoller) (this : Ptr) (c : Channel) : EPollPoller × Channel :=
  setEvents p this c (c.events_ ||| kReadEvent)

def disableReading (p : EPollPoller) (this : Ptr) (c : Channel) : EPollPoller × Channel :=
  setEvents p this c (c.events_ &&& ~~~kReadEvent)

def enableWriting (p : EPollPoller) (this : Ptr) (c : Channel) : EPollPoller × Channel :=
  setEvents p this c (c.events_ ||| kWriteEvent)

def disableWriting (p : EPollPoller) (this : Ptr) (c : Channel) : EPollPoller × Channel :=
  setEvents p this c (c.events_ &&& ~~~kWriteEvent)

def disableAll (p : EPollPoller) (this : Ptr) (c : Channel) : EPollPoller × Channel :=
  setEvents p this c kNoneEvent

def remove (p : EPollPoller) (this : Ptr) (c : Channel) : EPollPoller × Channel :=
  p.removeChannel this c

end Channel

/-! ## What the operations leave alone

These hold in every state, also when the kernel refuses the call. -/

theorem EPollPoller.update_trace (p : EPollPoller) (op : EpollOp) (this : Ptr) (c : Channel) :
    ∃ ok, (p.update op this c).trace = p.trace ++ [.epollCtl op c.fd_ ok] := by
  rw [update]
  split
  · exact ⟨true, rfl⟩
  · exact ⟨false, rfl⟩

/-- `update()` changes nothing in the channel but `events_` and `index_`, and issues one
`epoll_ctl`. -/
theorem Channel.setEvents_spec (p : EPollPoller) (this : Ptr) (c : Channel) (events : Mask) :
    ∃ index op ok, (c.setEvents p this events).2 = { c with events_ := events, index_ := index } ∧
      (c.setEvents p this events).1.trace = p.trace ++ [.epollCtl op c.fd_ ok] := by
  rw [setEvents, EPollPoller.updateChannel]
  -- each of the branches ends in one call of `update`
  split
  all_goals split
  all_goals exact ⟨_, _, _, rfl, (EPollPoller.update_trace _ _ _ _).choose_spec⟩

theorem Channel.isWriting_setEvents (p : EPollPoller) (this : Ptr) (c : Channel) (events : Mask) :
    (c.setEvents p this events).2.isWriting = (events &&& kWriteEvent != 0) := by
  obtain ⟨_, _, _, hch, _⟩ := c.setEvents_spec p this events
  rw [hch]
  rfl

theorem Channel.isWriting_enableWriting (p : EPollPoller) (this : Ptr) (c : Channel) :
    (c.enableWriting p this).2.isWriting = true := by
  rw [enableWriting, isWriting_setEvents, enableWriting_bit]
  decide

theorem Channel.isWriting_disableWriting (p : EPollPoller) (this : Ptr) (c : Channel) :
    (c.disableWriting p this).2.isWriting = false := by
  rw [disableWriting, isWriting_setEvents, disableWriting_bit]
  decide

theorem Channel.isWriting_disableAll (p : EPollPoller) (this : Ptr) (c : Channel) :
    (c.disableAll p this).2.isWriting = false := by
  rw [disableAll, isWriting_setEvents]
  decide

/-! ## Agreement of the three records -/

/-- The poller and the kernel know the channel exactly as its `index_` says. -/
structure Synced (p : EPollPoller) (this : Ptr) (c : Channel) : Prop where
  interest : p.interest c.fd_ = if c.index_ = .kAdded then some (c.events_, this) else none
  channels : p.channels_ c.fd_ = if c.index_ = .kNew then none else some this

/-- Two pollers agree on every descriptor except `fd`. -/
structure SameExcept (fd : Int) (p q : EPollPoller) : Prop where
  interest : ∀ fd', fd' ≠ fd → q.interest fd' = p.interest fd'
  channels : ∀ fd', fd' ≠ fd → q.channels_ fd' = p.channels_ fd'

theorem Synced.of_sameExcept {p q : EPollPoller} {this : Ptr} {c : Channel} {fd : Int}
    (h : Synced p this c) (hs : SameExcept fd p q) (hne : c.fd_ ≠ fd) : Synced q this c where
  interest := (hs.interest _ hne).trans h.interest
  channels := (hs.channels _ hne).trans h.channels

/-- What a call on a synced channel leaves behind: the new channel `c'`, at most one
successful `epoll_ctl`, and nothing else changed. -/
structure Effect (p : EPollPoller) (this : Ptr) (c : Channel) (calls : List EpollOp)
    (r : EPollPoller × Channel) (c' : Channel) : Prop where
  channel : r.2 = c'
  synced : Synced r.1 this c'
  frame : SameExcept c.fd_ p r.1
  trace : r.1.trace = p.trace ++ calls.map fun op => .epollCtl op c.fd_ true
  exited : r.1.exited = p.exited

/-- One accepted `epoll_ctl` that writes `event`, with a matching change of `channels_`. -/
theorem Effect.single {p : EPollPoller} {this : Ptr} {c c' : Channel} {op : EpollOp}
    {channels : Int → Option Ptr} {event : Option (Mask × Ptr)} (hfd : c'.fd_ = c.fd_)
    (hevent : event = if c'.index_ = .kAdded then some (c'.events_, this) else none)
    (hother : ∀ fd, fd ≠ c.fd_ → channels fd = p.channels_ fd)
    (hown : channels c.fd_ = if c'.index_ = .kNew then none else some this) :
    Effect p this c [op]
      ({ channels_ := channels, interest := update p.interest c.fd_ event,
         trace := p.trace ++ [.epollCtl op c.fd_ true], exited := p.exited }, c') c' where
  channel := rfl
  synced := ⟨by rw [hfd]; exact (update_self _ _ _).trans hevent, by rw [hfd]; exact hown⟩
  frame := ⟨fun fd hne => update_of_ne hne _ _, hother⟩
  trace := rfl
  exited := rfl

/-- The state in the poller after `updateChannel`. -/
def Index.afterUpdate (index : Index) (events : Mask) : Index :=
  if index = .kAdded ∧ events = kNoneEvent then .kDeleted else .kAdded

/-- The `epoll_ctl` operation that `updateChannel` issues. -/
def Index.updateOp (index : Index) (events : Mask) : EpollOp :=
  if index = .kAdded then if events = kNoneEvent then .DEL else .MOD else .ADD

/-- **The step lemma for `update()`**: in each of the three states the call issues the
operation that the kernel accepts. -/
theorem Synced.setEvents {p : EPollPoller} {this : Ptr} {c : Channel} (h : Synced p this c)
    (events : Mask) :
    Effect p this c [c.index_.updateOp events] (c.setEvents p this events)
      { c with events_ := events, index_ := c.index_.afterUpdate events } := by
  obtain ⟨hi, hc⟩ := h
  cases hidx : c.index_ with
  | kNew =>
    rw [hidx, if_neg (by decide)] at hi
    have hcall : c.setEvents p this events =
        ({ channels_ := update p.channels_ c.fd_ (some this)
           interest := update p.interest c.fd_ (some (events, this))
           trace := p.trace ++ [.epollCtl .ADD c.fd_ true], exited := p.exited },
          { c with events_ := events, index_ := .kAdded }) := by
      simp [Channel.setEvents, EPollPoller.updateChannel, EPollPoller.update,
        EPollPoller.emit, epollCtl, hidx, hi]
    rw [hcall]
    exact Effect.single rfl rfl (fun fd hne => update_of_ne hne _ _) (update_self _ _ _)
  | kAdded =>
    rw [hidx, if_pos rfl] at hi
    rw [hidx, if_neg (by decide)] at hc
    by_cases hz : events = kNoneEvent
    · -- without events the channel leaves the interest list, but stays in `channels_`
      have hcall : c.setEvents p this events =
          ({ channels_ := p.channels_
             interest := update p.interest c.fd_ none
             trace := p.trace ++ [.epollCtl .DEL c.fd_ true], exited := p.exited },
            { c with events_ := events, index_ := .kDeleted }) := by
        simp [Channel.setEvents, EPollPoller.updateChannel, EPollPoller.update,
          EPollPoller.emit, epollCtl, Channel.isNoneEvent, hidx, hi, hz]
      have hafter : Index.afterUpdate .kAdded events = .kDeleted := if_pos ⟨rfl, hz⟩
      have hop : Index.updateOp .kAdded events = .DEL := by
        rw [Index.updateOp, if_pos rfl, if_pos hz]
      rw [hcall, hafter, hop]
      exact Effect.single rfl rfl (fun _ _ => rfl) hc
    · have hcall : c.setEvents p this events =
          ({ channels_ := p.channels_
             interest := update p.interest c.fd_ (some (events, this))
             trace := p.trace ++ [.epollCtl .MOD c.fd_ true], exited := p.exited },
            { c with events_ := events, index_ := .kAdded }) := by
        simp [Channel.setEvents, EPollPoller.updateChannel, EPollPoller.update,
          EPollPoller.emit, epollCtl, Channel.isNoneEvent, hidx, hi, hz]
      have hafter : Index.afterUpdate .kAdded events = .kAdded := if_neg fun h => hz h.2
      have hop : Index.updateOp .kAdded events = .MOD := by
        rw [Index.updateOp, if_pos rfl, if_neg hz]
      rw [hcall, hafter, hop]
      exact Effect.single rfl rfl (fun _ _ => rfl) hc
  | kDeleted =>
    -- the map still has the channel, and the kernel does not: ADD is right again
    rw [hidx, if_neg (by decide)] at hi hc
    have hcall : c.setEvents p this events =
        ({ channels_ := p.channels_
           interest := update p.interest c.fd_ (some (events, this))
           trace := p.trace ++ [.epollCtl .ADD c.fd_ true], exited := p.exited },
          { c with events_ := events, index_ := .kAdded }) := by
      simp [Channel.setEvents, EPollPoller.updateChannel, EPollPoller.update,
        EPollPoller.emit, epollCtl, hidx, hi]
    rw [hcall]
    exact Effect.single rfl rfl (fun _ _ => rfl) hc

/-- **The step lemma for `remove`.** -/
theorem Synced.remove {p : EPollPoller} {this : Ptr} {c : Channel} (h : Synced p this c) :
    Effect p this c (if c.index_ = .kAdded then [.DEL] else []) (c.remove p this)
      { c with index_ := .kNew } := by
  obtain ⟨hi, _⟩ := h
  by_cases hidx : c.index_ = .kAdded
  · rw [if_pos hidx] at hi ⊢
    have hcall : c.remove p this =
        ({ channels_ := update p.channels_ c.fd_ none
           interest := update p.interest c.fd_ none
           trace := p.trace ++ [.epollCtl .DEL c.fd_ true], exited := p.exited },
          { c with index_ := .kNew }) := by
      simp [Channel.remove, EPollPoller.removeChannel, EPollPoller.update, EPollPoller.emit,
        epollCtl, hidx, hi]
    rw [hcall]
    exact Effect.single rfl rfl (fun fd hne => update_of_ne hne _ _) (update_self _ _ _)
  · rw [if_neg hidx] at hi ⊢
    have hcall : c.remove p this =
        ({ p with channels_ := update p.channels_ c.fd_ none }, { c with index_ := .kNew }) := by
      simp [Channel.remove, EPollPoller.removeChannel, hidx]
    rw [hcall]
    exact ⟨rfl, ⟨hi, update_self _ _ _⟩, ⟨fun _ _ => rfl, fun fd hne => update_of_ne hne _ _⟩,
      by simp, rfl⟩

/-! ## Many channels on one poller -/

inductive ChannelOp where
  | enableReading
  | disableReading
  | enableWriting
  | disableWriting
  | disableAll
  | remove
  deriving DecidableEq, Repr

def ChannelOp.apply (p : EPollPoller) (this : Ptr) (c : Channel) :
    ChannelOp → EPollPoller × Channel
  | .enableReading => c.enableReading p this
  | .disableReading => c.disableReading p this
  | .enableWriting => c.enableWriting p this
  | .disableWriting => c.disableWriting p this
  | .disableAll => c.disableAll p this
  | .remove => c.remove p this

/-- Every operation, whatever the state, has the effect of accepted `epoll_ctl` calls. -/
theorem Synced.apply {p : EPollPoller} {this : Ptr} {c : Channel} (h : Synced p this c)
    (op : ChannelOp) :
    ∃ calls c', Effect p this c calls (op.apply p this c) c' ∧ c'.fd_ = c.fd_ := by
  cases op with
  | remove => exact ⟨_, _, h.remove, rfl⟩
  | _ => exact ⟨_, _, h.setEvents _, rfl⟩

/-- A poller and the channels attached to it. -/
structure Reactor where
  poller : EPollPoller
  chans : Ptr → Channel

/-- A new poller and freshly constructed channels. -/
def Reactor.fresh (fd : Ptr → Int) : Reactor where
  poller := {}
  chans := fun this => { fd_ := fd this }

/-- One operation on one channel; nothing happens any more once the process has exited. -/
def Reactor.step (s : Reactor) (a : Ptr × ChannelOp) : Option Reactor :=
  if s.poller.exited then none
  else
    let r := a.2.apply s.poller a.1 (s.chans a.1)
    some { poller := r.1, chans := update s.chans a.1 r.2 }

/-- The invariant of the reactor: all live channels are synced and no call has failed. -/
structure Reactor.InStep (live : Finset Ptr) (fd : Ptr → Int) (s : Reactor) : Prop where
  fd_eq : ∀ this, (s.chans this).fd_ = fd this
  synced : ∀ this ∈ live, Synced s.poller this (s.chans this)
  accepted : ∀ op fd', Event.epollCtl op fd' false ∉ s.poller.trace
  alive : s.poller.exited = false

theorem Reactor.fresh_inStep (live : Finset Ptr) (fd : Ptr → Int) :
    (Reactor.fresh fd).InStep live fd where
  fd_eq _ := rfl
  synced _ _ := ⟨rfl, rfl⟩
  accepted _ _ := List.not_mem_nil
  alive := rfl

/-- An operation on a live channel goes through and keeps every live channel synced: its
own by the step lemmas, the others because their descriptors differ. -/
theorem Reactor.InStep.step {live : Finset Ptr} {fd : Ptr → Int} (hfd : Set.InjOn fd live)
    (s : Reactor) (a : Ptr × ChannelOp) (h : s.InStep live fd) (ha : a.1 ∈ live) :
    ∃ s', s.step a = some s' ∧ s'.InStep live fd := by
  obtain ⟨this, op⟩ := a
  obtain ⟨calls, c', he, hc'⟩ := (h.synced this ha).apply op
  refine ⟨_, by rw [Reactor.step, if_neg (by rw [h.alive]; decide)], ?_, ?_, ?_, ?_⟩
  · intro that
    by_cases heq : that = this
    · subst heq
      simp only [update_self, he.channel, hc', h.fd_eq]
    · simp only [update_of_ne heq, h.fd_eq]
  · intro that hthat
    by_cases heq : that = this
    · subst heq
      simpa only [update_self, he.channel] using he.synced
    · have hne : (s.chans that).fd_ ≠ (s.chans this).fd_ := by
        rw [h.fd_eq, h.fd_eq]
        exact fun hsame => heq (hfd hthat ha hsame)
      simpa only [update_of_ne heq] using (h.synced that hthat).of_sameExcept he.frame hne
  · intro op' fd' hmem
    simp only [he.trace, List.mem_append, List.mem_map] at hmem
    obtain hmem | ⟨_, _, hcall⟩ := hmem
    · exact h.accepted op' fd' hmem
    · cases hcall
  · exact he.exited.trans h.alive

/-- **Channels, poller and kernel stay in step.** For live channels with distinct
descriptors every sequence of operations runs to its end; then the interest list, the
masks and pointers in it and `channels_` are what the channels' `index_` and `events_`
say, and no `epoll_ctl` has failed. -/
theorem channels_in_step (live : Finset Ptr) (fd : Ptr → Int) (hfd : Set.InjOn fd live)
    (ops : List (Ptr × ChannelOp)) (hops : ∀ a ∈ ops, a.1 ∈ live) :
    ∃ s, run Reactor.step (Reactor.fresh fd) ops = some s ∧
      (∀ this ∈ live,
        ((s.chans this).index_ = .kAdded ↔ (s.poller.interest (fd this)).isSome) ∧
        ((s.chans this).index_ = .kAdded →
          s.poller.interest (fd this) = some ((s.chans this).events_, this)) ∧
        ((s.chans this).index_ ≠ .kNew ↔ s.poller.channels_ (fd this) = some this) ∧
        ((s.chans this).index_ = .kNew ↔ s.poller.channels_ (fd this) = none)) ∧
      (∀ op fd', Event.epollCtl op fd' false ∉ s.poller.trace) ∧
      s.poller.exited = false := by
  obtain ⟨s, hrun, hs⟩ := run_total (Reactor.InStep.step hfd)
    (Reactor.fresh_inStep live fd) (guarded_of_forall_mem (fun a ha _ => hops a ha) _)
  refine ⟨s, hrun, fun this hthis => ?_, hs.accepted, hs.alive⟩
  have hi := (hs.synced this hthis).interest
  have hc := (hs.synced this hthis).channels
  rw [hs.fd_eq] at hi hc
  rw [hi, hc]
  cases (s.chans this).index_ <;> simp

/-- Two channels, with operations repeated and applied in every state of a channel. -/
theorem channels_in_step_pair :
    ∃ s, run Reactor.step (Reactor.fresh fun this => this)
        [(3, .enableReading), (4, .disableAll), (3, .disableAll), (3, .disableAll),
          (4, .remove), (4, .remove), (4, .enableWriting)] = some s ∧
      s.poller.exited = false := by
  obtain ⟨s, hrun, _, _, halive⟩ := channels_in_step {3, 4} (fun this => this)
    (fun _ _ _ _ h => Int.ofNat.inj h)
    [(3, .enableReading), (4, .disableAll), (3, .disableAll), (3, .disableAll),
      (4, .remove), (4, .remove), (4, .enableWriting)] (by decide)
  exact ⟨s, hrun, halive⟩

end CppInOne.Mymuduo
