import CppInOne.Mymuduo.EPollPoller

/-!
# Channels without events

`updateChannel` takes a channel without events out of epoll when the channel is `kAdded`. From
`kNew` and `kDeleted` it adds the channel whatever its events are. This file says exactly in
which runs a channel that is interested in nothing is not watched.
-/

namespace CppInOne.Mymuduo
open Transition Function

/-- What an operation makes of `events_`. -/
def ChannelOp.events (events : Mask) : ChannelOp → Mask
  | .enableReading => events ||| kReadEvent
  | .disableReading => events &&& ~~~kReadEvent
  | .enableWriting => events ||| kWriteEvent
  | .disableWriting => events &&& ~~~kWriteEvent
  | .disableAll => kNoneEvent
  | .remove => events

theorem ChannelOp.apply_eq_setEvents (p : EPollPoller) (this : Ptr) (c : Channel)
    {op : ChannelOp} (hop : op ≠ .remove) :
    op.apply p this c = c.setEvents p this (op.events c.events_) := by
  cases op with
  | remove => exact absurd rfl hop
  | _ => rfl

/-- If the channel is interested in nothing, its descriptor is not in the interest list. -/
def Unwatched (p : EPollPoller) (c : Channel) : Prop :=
  c.isNoneEvent = true → p.interest c.fd_ = none

/-- The operation leaves its channel unwatched, if it leaves it without events. -/
def LeavesUnwatched (s : Reactor) (a : Ptr × ChannelOp) : Prop :=
  ∀ s', s.step a = some s' → Unwatched s'.poller (s'.chans a.1)

/-- The condition on a step: `remove`, or an operation that leaves some event, or an operation
on a channel that is `kAdded`. -/
def NoneOnlyFromAdded (s : Reactor) (a : Ptr × ChannelOp) : Prop :=
  a.2 = .remove ∨ a.2.events (s.chans a.1).events_ ≠ kNoneEvent ∨ (s.chans a.1).index_ = .kAdded

instance (s : Reactor) (a : Ptr × ChannelOp) : Decidable (NoneOnlyFromAdded s a) :=
  inferInstanceAs (Decidable (_ ∨ _ ∨ _))

/-- On a synced channel it is `index_` that tells whether the descriptor is watched. -/
theorem Synced.unwatched_iff {p : EPollPoller} {this : Ptr} {c : Channel}
    (h : Synced p this c) :
    Unwatched p c ↔ (c.events_ = kNoneEvent → c.index_ ≠ .kAdded) := by
  rw [Unwatched, Channel.isNoneEvent, beq_iff_eq, h.interest]
  refine imp_congr_right fun _ => ?_
  split
  · rename_i hadded
    simp [hadded]
  · rename_i hadded
    simp [hadded]

/-- `updateChannel` deletes the channel only from `kAdded`. -/
theorem Index.afterUpdate_ne_kAdded (index : Index) (events : Mask) :
    index.afterUpdate events ≠ .kAdded ↔ index = .kAdded ∧ events = kNoneEvent := by
  rw [Index.afterUpdate]
  split
  · rename_i hdel
    exact iff_of_true nofun hdel
  · rename_i hadd
    exact iff_of_false (fun hne => hne rfl) hadd

/-- **Step lemma** for one channel. -/
theorem Synced.unwatched_apply_iff {p : EPollPoller} {this : Ptr} {c : Channel}
    (h : Synced p this c) (op : ChannelOp) :
    Unwatched (op.apply p this c).1 (op.apply p this c).2 ↔
      op = .remove ∨ op.events c.events_ ≠ kNoneEvent ∨ c.index_ = .kAdded := by
  by_cases hop : op = .remove
  · subst hop
    have he := h.remove
    have hsynced : Synced (c.remove p this).1 this (c.remove p this).2 := by
      rw [he.channel]
      exact he.synced
    have hnew : (c.remove p this).2.index_ = .kNew := congrArg Channel.index_ he.channel
    have hunwatched : Unwatched (c.remove p this).1 (c.remove p this).2 := by
      rw [hsynced.unwatched_iff, hnew]
      exact fun _ => nofun
    exact iff_of_true hunwatched (Or.inl rfl)
  · have he := h.setEvents (op.events c.events_)
    rw [ChannelOp.apply_eq_setEvents p this c hop, he.channel, he.synced.unwatched_iff,
      Index.afterUpdate_ne_kAdded]
    -- without events, the channel is deleted exactly from `kAdded`
    constructor
    · intro hdel
      by_cases hnone : op.events c.events_ = kNoneEvent
      · exact Or.inr (Or.inr (hdel hnone).1)
      · exact Or.inr (Or.inl hnone)
    · rintro (hremove | hsome | hadded) hnone
      · exact absurd hremove hop
      · exact absurd hnone hsome
      · exact ⟨hadded, hnone⟩

theorem Reactor.InStep.leavesUnwatched_iff {live : Finset Ptr} {fd : Ptr → Int} {s : Reactor}
    (h : s.InStep live fd) {a : Ptr × ChannelOp} (ha : a.1 ∈ live) :
    LeavesUnwatched s a ↔ NoneOnlyFromAdded s a := by
  have hstep : s.step a = some
      { poller := (a.2.apply s.poller a.1 (s.chans a.1)).1
        chans := update s.chans a.1 (a.2.apply s.poller a.1 (s.chans a.1)).2 } := by
    rw [Reactor.step, if_neg (by rw [h.alive]; decide)]
  have hiff := (h.synced a.1 ha).unwatched_apply_iff a.2
  rw [LeavesUnwatched, hstep]
  simp only [Option.some.injEq, forall_eq', update_self]
  exact hiff

/-- **Channels without events are not watched**, after every operation of a run, if and only if
no operation except `remove` leaves a channel without events that was not `kAdded` before. -/
theorem unwatched_iff_none_only_from_added (live : Finset Ptr) (fd : Ptr → Int)
    (hfd : Set.InjOn fd live) (ops : List (Ptr × ChannelOp)) (hops : ∀ a ∈ ops, a.1 ∈ live) :
    Guarded Reactor.step LeavesUnwatched (Reactor.fresh fd) ops ↔
      Guarded Reactor.step NoneOnlyFromAdded (Reactor.fresh fd) ops := by
  refine guarded_congr_of_forall_mem (I := Reactor.InStep live fd) (P := fun a => a.1 ∈ live)
    (fun _ _ h ha => h.leavesUnwatched_iff ha) (fun s a s' h ha _ hs' => ?_)
    (Reactor.fresh_inStep live fd) hops
  obtain ⟨t, ht, hinv⟩ := h.step hfd s a ha
  rw [ht] at hs'
  cases hs'
  exact hinv

/-- A channel that is added, disabled and removed, beside one that was never added. -/
theorem unwatched_disabled_once :
    Guarded Reactor.step LeavesUnwatched (Reactor.fresh fun this => this)
      [(3, .enableReading), (4, .remove), (3, .disableAll), (3, .enableWriting),
        (3, .disableWriting), (3, .remove)] :=
  (unwatched_iff_none_only_from_added {3, 4} (fun this => this) (fun _ _ _ _ h => Int.ofNat.inj h)
    _ (by decide)).mpr (by decide)

/-- `disableAll` on a channel that was never added puts it into the interest list. -/
theorem disableAll_watched :
    ∃ s, run Reactor.step (Reactor.fresh fun this => this) [(3, .disableAll)] = some s ∧
      (s.chans 3).isNoneEvent = true ∧ s.poller.interest 3 = some (kNoneEvent, 3) ∧
      ¬ Guarded Reactor.step LeavesUnwatched (Reactor.fresh fun this => this)
        [(3, .disableAll)] := by
  have hrun : run Reactor.step (Reactor.fresh fun this => this) [(3, .disableAll)] = some _ := rfl
  refine ⟨_, hrun, rfl, rfl, ?_⟩
  rintro ⟨hleaves, -⟩
  have hnone := hleaves _ rfl rfl
  cases hnone

end CppInOne.Mymuduo
