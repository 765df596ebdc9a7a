import Mathlib.Algebra.Group.Nat.Defs
import Mathlib.Algebra.Order.Group.Nat
import CppInOne.Mymuduo.ActiveChannels

/-!
# The event list of the poller

`EPollPoller::poll` lets `epoll_wait` fill the array `events_`, and doubles the array when it was
full. The kernel is a parameter, with what the documentation of `epoll_wait` promises: it reports at
most as many events as the array holds and takes the ready descriptors in turn. So a channel that
stays ready is reported, however many others are ready and whatever becomes ready meanwhile, and the
number of rounds it takes grows with the logarithm of the number of channels before it.

## Main definitions

- `Kernel`, `Kernel.RoundRobin` — the kernel, and what its documentation promises
- `poll`, `round` — the poller's call, and the round of the loop around it
- `exec` — rounds of the loop and changes of the ready descriptors, in any order

## Main results

- `length_events_le` — the array stays within twice what was ready at once
- `polled_in_time`
-/

namespace CppInOne.Mymuduo.EventList
open ActiveChannels

variable {σ K : Type*}

/-! ## The kernel -/

/-- An epoll instance, with its descriptors by their channels. -/
structure Kernel (K : Type*) where
  /-- A descriptor has these events. -/
  ready : K → Ptr → Mask → K
  /-- A descriptor has no events any more, or is not watched any more. -/
  idle : K → Ptr → K
  /-- A call of `epoll_wait` for so many events, when it is not interrupted. -/
  wait : K → Nat → K × Report

/-- The ready descriptors stand in a queue: those that get ready queue up behind the others, a
report is the front of the queue, and the others move up. -/
structure Kernel.RoundRobin (kernel : Kernel K) (queue : K → List Ptr) : Prop where
  ready : ∀ k c mask, queue k <+: queue (kernel.ready k c mask)
  idle : ∀ k c, queue (kernel.idle k c) = (queue k).filter (· ≠ c)
  report : ∀ k n, (kernel.wait k n).2.events.map Prod.fst = (queue k).take n
  wait : ∀ k n, (queue k).drop n <+: queue (kernel.wait k n).1

variable (kernel : Kernel K) {queue : K → List Ptr}

/-- `epoll_wait`: it writes its report over the front of the array. The last component is the
number of events. -/
def epoll_wait (k : K) (events : List (Ptr × Mask)) : K × List (Ptr × Mask) × Nat :=
  let (k, report) := kernel.wait k events.length
  (k, report.events ++ events.drop report.events.length, report.events.length)

/-! ## The poller and the loop -/

def KInitEventListSize : Nat := 16

/-- `resize` of a vector of `epoll_event`. -/
def resize (events : List (Ptr × Mask)) (n : Nat) : List (Ptr × Mask) :=
  events.take n ++ List.replicate (n - events.length) (0, 0)

/-- A loop with its poller and the kernel. -/
structure State (σ K : Type*) where
  world : World σ
  epoll : K
  events_ : List (Ptr × Mask) := List.replicate KInitEventListSize (0, 0)
  activeChannels_ : List Ptr := []

/-- `EPollPoller::poll` when the call is not interrupted; a timeout is a report without events. -/
def poll (s : State σ K) : State σ K :=
  let (epoll, events, numEvents) := epoll_wait kernel s.epoll s.events_
  if 0 < numEvents then
    let (world, activeChannels) := fillActiveChannels s.world (events.take numEvents)
    { world, epoll
      events_ := if numEvents = events.length then resize events (events.length * 2) else events
      activeChannels_ := s.activeChannels_ ++ activeChannels }
  else { s with epoll := epoll, events_ := events }

/-- A round of `EventLoop::loop`, up to the pending functors. -/
def round (cbs : Callbacks σ) (s : State σ K) : State σ K :=
  let s := poll kernel { s with activeChannels_ := [] }
  { s with world := (handleActiveChannels cbs s.world s.activeChannels_).1 }

inductive Action where
  | ready (c : Ptr) (mask : Mask)
  | idle (c : Ptr)
  /-- `epoll_wait` is interrupted by a signal. -/
  | eintr
  | round
  deriving DecidableEq

def step (cbs : Callbacks σ) (s : State σ K) : Action → State σ K
  | .ready c mask => { s with epoll := kernel.ready s.epoll c mask }
  | .idle c => { s with epoll := kernel.idle s.epoll c }
  | .eintr => { s with activeChannels_ := [] }
  | .round => round kernel cbs s

def exec (cbs : Callbacks σ) (s : State σ K) (acts : List Action) : State σ K :=
  acts.foldl (step kernel cbs) s

/-- How often `epoll_wait` returns without an error. -/
def rounds (acts : List Action) : Nat := acts.count .round

/-! ## One round -/

/-- What one round reports. -/
def State.report (s : State σ K) : Report := (kernel.wait s.epoll s.events_.length).2

/-- The array after `epoll_wait`. -/
def State.filled (s : State σ K) : List (Ptr × Mask) :=
  (s.report kernel).events ++ s.events_.drop (s.report kernel).events.length

theorem length_resize (events : List (Ptr × Mask)) {n : Nat} (h : events.length ≤ n) :
    (resize events n).length = n := by
  rw [resize, List.length_append, List.length_take, List.length_replicate]
  omega

theorem poll_of_pos {s : State σ K} (hpos : 0 < (s.report kernel).events.length) :
    poll kernel s =
      { world := (fillActiveChannels s.world (s.report kernel).events).1
        epoll := (kernel.wait s.epoll s.events_.length).1
        events_ := if (s.report kernel).events.length = (s.filled kernel).length then
          resize (s.filled kernel) ((s.filled kernel).length * 2) else s.filled kernel
        activeChannels_ := s.activeChannels_ ++ (s.report kernel).events.map Prod.fst } := by
  have htake : (s.filled kernel).take (s.report kernel).events.length =
      (s.report kernel).events := List.take_left
  have hpoll : poll kernel s =
      { world := (fillActiveChannels s.world
          ((s.filled kernel).take (s.report kernel).events.length)).1
        epoll := (kernel.wait s.epoll s.events_.length).1
        events_ := if (s.report kernel).events.length = (s.filled kernel).length then
          resize (s.filled kernel) ((s.filled kernel).length * 2) else s.filled kernel
        activeChannels_ := s.activeChannels_ ++ (fillActiveChannels s.world
          ((s.filled kernel).take (s.report kernel).events.length)).2 } := if_pos hpos
  rw [hpoll, htake, (active_fillActiveChannels s.world (s.report kernel).events).1]

theorem poll_of_empty {s : State σ K} (hempty : (s.report kernel).events = []) :
    poll kernel s = { s with
      epoll := (kernel.wait s.epoll s.events_.length).1
      events_ := s.filled kernel } := by
  refine if_neg ?_
  change ¬ 0 < (s.report kernel).events.length
  rw [hempty]
  exact Nat.lt_irrefl 0

variable {kernel}

theorem length_report (hk : kernel.RoundRobin queue) (s : State σ K) :
    (s.report kernel).events.length = min s.events_.length (queue s.epoll).length := by
  have hlen := congrArg List.length (hk.report s.epoll s.events_.length)
  rwa [List.length_map, List.length_take] at hlen

theorem length_filled (hk : kernel.RoundRobin queue) (s : State σ K) :
    (s.filled kernel).length = s.events_.length := by
  have hlen := length_report hk s
  rw [State.filled, List.length_append, List.length_drop]
  omega

/-- A round takes the front of the queue to the active channels, and it leaves an array that is
twice as long if the report has filled it. -/
theorem round_spec (hk : kernel.RoundRobin queue) (cbs : Callbacks σ) (s : State σ K) :
    (round kernel cbs s).activeChannels_ = (queue s.epoll).take s.events_.length ∧
      (queue s.epoll).drop s.events_.length <+: queue (round kernel cbs s).epoll ∧
      (round kernel cbs s).events_.length =
        if s.events_.length ≤ (queue s.epoll).length then s.events_.length * 2
        else s.events_.length := by
  have hlen := length_report hk s
  have hfilled := length_filled hk s
  have hreport := hk.report s.epoll s.events_.length
  by_cases hempty : (s.report kernel).events = []
  · have hpoll := poll_of_empty kernel (s := { s with activeChannels_ := [] }) hempty
    rw [round, hpoll]
    refine ⟨(congrArg (List.map Prod.fst) hempty).symm.trans hreport,
      hk.wait s.epoll s.events_.length, ?_⟩
    rw [hempty, List.length_nil] at hlen
    change (s.filled kernel).length = _
    split <;> omega
  · have hpos : 0 < (s.report kernel).events.length := List.length_pos_iff.mpr hempty
    have hpoll := poll_of_pos kernel (s := { s with activeChannels_ := [] }) hpos
    rw [round, hpoll]
    refine ⟨(List.nil_append _).trans hreport, hk.wait s.epoll s.events_.length, ?_⟩
    change (if (s.report kernel).events.length = (s.filled kernel).length then
      resize (s.filled kernel) ((s.filled kernel).length * 2) else s.filled kernel).length = _
    split
    · rw [length_resize _ (by omega), hfilled, if_pos (by omega)]
    · rw [hfilled, if_neg (by omega)]

/-! ## The length of the array -/

/-- The array never holds more than twice what was ready at once, or its first length. -/
theorem length_events_le (hk : kernel.RoundRobin queue) (cbs : Callbacks σ) {s : State σ K}
    {acts : List Action} {bound : Nat} (hs : s.events_.length ≤ bound)
    (hready : ∀ pre post, acts = pre ++ .round :: post →
      (queue (exec kernel cbs s pre).epoll).length * 2 ≤ bound) :
    (exec kernel cbs s acts).events_.length ≤ bound := by
  induction acts generalizing s with
  | nil => exact hs
  | cons a acts ih =>
    have hstep : (step kernel cbs s a).events_.length ≤ bound := by
      cases a with
      | ready c mask => exact hs
      | idle c => exact hs
      | eintr => exact hs
      | round =>
        have hfirst : (queue s.epoll).length * 2 ≤ bound := hready [] acts rfl
        obtain ⟨-, -, hlen⟩ := round_spec hk cbs s
        change (round kernel cbs s).events_.length ≤ bound
        rw [hlen]
        split <;> omega
    refine ih hstep fun pre post heq => ?_
    exact hready (a :: pre) post (congrArg (List.cons a) heq)

/-! ## The place of a channel -/

/-- The channel is in the queue, with at most `p` others before it. -/
def Waits (c : Ptr) (p : Nat) (l : List Ptr) : Prop :=
  ∃ before after, l = before ++ c :: after ∧ before.length ≤ p

namespace Waits

variable {c d : Ptr} {p n : Nat} {l l' : List Ptr}

theorem mono (h : Waits c p l) (hl : l <+: l') : Waits c p l' := by
  obtain ⟨before, after, rfl, hle⟩ := h
  obtain ⟨behind, rfl⟩ := hl
  exact ⟨before, after ++ behind, by rw [List.append_assoc, List.cons_append], hle⟩

theorem filter (h : Waits c p l) (hne : c ≠ d) : Waits c p (l.filter (· ≠ d)) := by
  obtain ⟨before, after, rfl, hle⟩ := h
  refine ⟨before.filter (· ≠ d), after.filter (· ≠ d), ?_, ?_⟩
  · rw [List.filter_append, List.filter_cons_of_pos (by simpa using hne)]
  · exact (List.length_filter_le _ before).trans hle

/-- A channel that is not reported moves forward by what is. -/
theorem drop (h : Waits c p l) (hc : c ∉ l.take n) :
    n ≤ p ∧ n < l.length ∧ Waits c (p - n) (l.drop n) := by
  obtain ⟨before, after, rfl, hle⟩ := h
  have hn : n ≤ before.length := by
    by_contra hlt
    obtain ⟨k, hk⟩ : ∃ k, n - before.length = k + 1 := ⟨n - before.length - 1, by omega⟩
    apply hc
    rw [List.take_append, hk, List.take_succ_cons]
    exact List.mem_append_right _ List.mem_cons_self
  refine ⟨hn.trans hle, ?_, before.drop n, after, ?_, ?_⟩
  · rw [List.length_append, List.length_cons]
    omega
  · rw [List.drop_append_of_le_length hn]
  · rw [List.length_drop]
    exact Nat.sub_le_sub_right hle n

end Waits

/-! ## No channel starves -/

/-- A channel that is not among those of a round was behind a report that filled the array. -/
theorem Waits.round (hk : kernel.RoundRobin queue) (cbs : Callbacks σ) {s : State σ K} {c : Ptr}
    {p : Nat} (h : Waits c p (queue s.epoll)) (hc : c ∉ (round kernel cbs s).activeChannels_) :
    s.events_.length ≤ p ∧ (EventList.round kernel cbs s).events_.length = s.events_.length * 2 ∧
      Waits c (p - s.events_.length) (queue (EventList.round kernel cbs s).epoll) := by
  obtain ⟨hactive, hqueue, hevents⟩ := round_spec hk cbs s
  rw [hactive] at hc
  obtain ⟨hle, hlt, hwaits⟩ := h.drop hc
  rw [hevents, if_pos hlt.le]
  exact ⟨hle, rfl, hwaits.mono hqueue⟩

/-- The channels that were before `c` at first are more than the array holds in these rounds. -/
theorem le_of_not_polled (hk : kernel.RoundRobin queue) (cbs : Callbacks σ) {s : State σ K}
    {c : Ptr} {p : Nat} (h : Waits c p (queue s.epoll)) {acts : List Action}
    (hidle : .idle c ∉ acts)
    (hpolled : ∀ pre post, acts = pre ++ .round :: post →
      c ∉ (exec kernel cbs s (pre ++ [.round])).activeChannels_) :
    s.events_.length * (2 ^ rounds acts - 1) ≤ p := by
  induction acts generalizing s p with
  | nil => exact Nat.zero_le p
  | cons a acts ih =>
    have hrest : ∀ pre post, acts = pre ++ .round :: post →
        c ∉ (exec kernel cbs (step kernel cbs s a) (pre ++ [.round])).activeChannels_ :=
      fun pre post heq => hpolled (a :: pre) post (congrArg (List.cons a) heq)
    have hidle' : .idle c ∉ acts := fun hmem => hidle (List.mem_cons_of_mem a hmem)
    cases a with
    | ready d mask =>
      exact ih (s := step kernel cbs s (.ready d mask)) (h.mono (hk.ready s.epoll d mask)) hidle'
        hrest
    | idle d =>
      have hne : c ≠ d := by
        rintro rfl
        exact hidle List.mem_cons_self
      have hwaits : Waits c p (queue (kernel.idle s.epoll d)) := by
        rw [hk.idle]
        exact h.filter hne
      exact ih (s := step kernel cbs s (.idle d)) hwaits hidle' hrest
    | eintr => exact ih (s := step kernel cbs s .eintr) h hidle' hrest
    | round =>
      obtain ⟨hle, hlen, hwaits⟩ := h.round hk cbs (hpolled [] acts rfl)
      have htail := ih (s := step kernel cbs s .round) hwaits hidle' hrest
      have hcount : rounds (.round :: acts) = rounds acts + 1 := List.count_cons_self
      obtain ⟨k, hk⟩ := Nat.exists_eq_add_of_le (Nat.one_le_two_pow (n := rounds acts))
      have hbefore : s.events_.length * 2 * k ≤ p - s.events_.length := by
        have heq : 2 ^ rounds acts - 1 = k := by omega
        rw [heq] at htail
        exact hlen ▸ htail
      -- the array has doubled, so the rounds that follow pass twice as many channels
      calc s.events_.length * (2 ^ rounds (.round :: acts) - 1)
          = s.events_.length * (2 * k + 1) := by
            rw [hcount, Nat.pow_succ, hk]
            congr 1
            omega
        _ = s.events_.length * 2 * k + s.events_.length := by
            rw [Nat.mul_add, Nat.mul_one, Nat.mul_assoc]
        _ ≤ p := by omega

theorem le_length_events (hk : kernel.RoundRobin queue) (cbs : Callbacks σ) (s : State σ K)
    (acts : List Action) : s.events_.length ≤ (exec kernel cbs s acts).events_.length := by
  induction acts generalizing s with
  | nil => exact le_refl _
  | cons a acts ih =>
    refine le_trans ?_ (ih (step kernel cbs s a))
    cases a with
    | ready c mask => exact le_refl _
    | idle c => exact le_refl _
    | eintr => exact le_refl _
    | round =>
      obtain ⟨-, -, hlen⟩ := round_spec hk cbs s
      change s.events_.length ≤ (round kernel cbs s).events_.length
      rw [hlen]
      split <;> omega

/-- **No channel starves**: in whatever order the loop goes round and channels become ready or
idle, a channel that stays ready is handled within `k` rounds if fewer than `16 * (2 ^ k - 1)`
channels were before it. -/
theorem polled_in_time (hk : kernel.RoundRobin queue) (cbs : Callbacks σ) (world : World σ)
    (epoll : K) (past acts : List Action) {c : Ptr} {p : Nat}
    (h : Waits c p (queue (exec kernel cbs { world, epoll } past).epoll)) (hidle : .idle c ∉ acts)
    (hrounds : p < KInitEventListSize * (2 ^ rounds acts - 1)) :
    ∃ pre post, acts = pre ++ .round :: post ∧
      c ∈ (exec kernel cbs (exec kernel cbs { world, epoll } past)
        (pre ++ [.round])).activeChannels_ := by
  by_contra hpolled
  have hle := le_of_not_polled hk cbs h hidle
    fun pre post heq hmem => hpolled ⟨pre, post, heq, hmem⟩
  have hlen : KInitEventListSize ≤ (exec kernel cbs { world, epoll } past).events_.length :=
    le_length_events hk cbs { world, epoll } past
  have hmul := Nat.mul_le_mul_right (2 ^ rounds acts - 1) hlen
  omega

/-! ### A ready list -/

/-- The ready descriptors with their events, in the order of the reports. -/
structure ReadyList where
  entries : List (Ptr × Mask) := []
  nodup : (entries.map Prod.fst).Nodup := by exact List.nodup_nil

namespace ReadyList

/-- A descriptor that is ready already keeps its place. -/
def ready (l : ReadyList) (c : Ptr) (mask : Mask) : ReadyList :=
  if h : c ∈ l.entries.map Prod.fst then
    { entries := l.entries.map fun e => (e.1, if e.1 = c then mask else e.2)
      nodup := by
        rw [List.map_map]
        exact l.nodup }
  else
    { entries := l.entries ++ [(c, mask)]
      nodup := by
        rw [List.map_append, List.nodup_append]
        refine ⟨l.nodup, List.nodup_singleton c, ?_⟩
        intro a ha b hb heq
        rw [List.map_singleton, List.mem_singleton] at hb
        rw [heq, hb] at ha
        exact h ha }

def idle (l : ReadyList) (c : Ptr) : ReadyList where
  entries := l.entries.filter (·.1 ≠ c)
  nodup := l.nodup.sublist (List.filter_sublist.map Prod.fst)

/-- The first `n` descriptors go behind the others, since they stay ready. -/
def rotate (l : ReadyList) (n : Nat) : ReadyList where
  entries := l.entries.drop n ++ l.entries.take n
  nodup := by
    have hperm : (l.entries.drop n ++ l.entries.take n).Perm l.entries := by
      refine List.perm_append_comm.trans ?_
      rw [List.take_append_drop]
    exact (hperm.map Prod.fst).nodup_iff.mpr l.nodup

/-- The first `n` descriptors as a report. -/
def report (l : ReadyList) (n : Nat) : Report where
  events := l.entries.take n
  nodup := l.nodup.sublist ((List.take_sublist n l.entries).map Prod.fst)

def epoll : Kernel ReadyList where
  ready := ready
  idle := idle
  wait l n := (l.rotate n, l.report n)

theorem roundRobin_epoll : epoll.RoundRobin fun l => l.entries.map Prod.fst where
  ready l c mask := by
    change l.entries.map Prod.fst <+: (l.ready c mask).entries.map Prod.fst
    rw [ready]
    split
    · have hsame : (l.entries.map fun e => (e.1, if e.1 = c then mask else e.2)).map Prod.fst =
          l.entries.map Prod.fst := List.map_map
      exact ⟨[], (List.append_nil _).trans hsame.symm⟩
    · rw [List.map_append]
      exact List.prefix_append _ _
  idle l c := (List.filter_map (p := fun d => decide (d ≠ c)) (f := Prod.fst)).symm
  report l n := List.map_take
  wait l n := by
    change (l.entries.map Prod.fst).drop n <+: (l.entries.drop n ++ l.entries.take n).map Prod.fst
    rw [List.map_append, List.map_drop]
    exact List.prefix_append _ _

end ReadyList

/-- Seventeen channels become ready, so that the last one waits for the second round. -/
theorem polled_in_time_seventeen :
    ∃ pre post, [Action.round, .eintr, .ready 3 EPOLLIN, .round] = pre ++ .round :: post ∧
      16 ∈ (exec ReadyList.epoll ActiveChannels.idle (exec ReadyList.epoll ActiveChannels.idle
        { world := ⟨fun _ => connection, fun _ => true, ()⟩, epoll := {} }
        ((List.range 17).map fun c => .ready c EPOLLIN)) (pre ++ [.round])).activeChannels_ :=
  polled_in_time ReadyList.roundRobin_epoll ActiveChannels.idle _ _ _ _ (p := 16)
    ⟨List.range 16, [], by decide, by decide⟩ (by decide) (by decide)

end CppInOne.Mymuduo.EventList
