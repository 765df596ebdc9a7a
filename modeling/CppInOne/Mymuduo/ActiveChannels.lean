import Mathlib.Data.List.Nodup
import Mathlib.Logic.Function.Basic
import CppInOne.Mymuduo.Channel

/-!
# Dispatch of the active channels

One round of `EventLoop::loop`: `fillActiveChannels` stores what `epoll_wait` has reported in the
channels, and then `handleEvent` is called on each of them. A callback may change the channels, but
not what `handleEvent` still reads. This file says exactly for which reports the callbacks are
those that the reported events ask for.

## Main definitions

- `World`, `Callbacks` — the channels of a loop, and what their callbacks do
- `loop` — the round, with the trace of the callbacks it invokes
- `expected` — the callbacks that a reported mask asks for

## Main results

- `dispatch_follows_report_iff`
-/

namespace CppInOne.Mymuduo.ActiveChannels
open Function

/-! ## The tests of `handleEventWithGuard` -/

/-- The four callbacks, in the order in which they are tested. -/
def order : List Callback := [.close, .error, .read, .write]

/-- The test of `handleEventWithGuard` in front of a callback. -/
def Due (c : Channel) : Callback → Prop
  | .close => c.revents_ &&& EPOLLHUP ≠ 0 ∧ ¬ c.revents_ &&& EPOLLIN ≠ 0 ∧ c.closeCallback_ = true
  | .error => c.revents_ &&& EPOLLERR ≠ 0 ∧ c.errorCallback_ = true
  | .read => c.revents_ ≠ 0 ∧ ¬ EPOLLPRI &&& EPOLLIN ≠ 0 ∧ c.readCallback_ = true
  | .write => c.revents_ ≠ 0 ∧ EPOLLOUT ≠ 0 ∧ c.writeCallback_ = true

instance (c : Channel) : ∀ cb, Decidable (Due c cb)
  | .close => inferInstanceAs (Decidable (_ ∧ _ ∧ _))
  | .error => inferInstanceAs (Decidable (_ ∧ _))
  | .read => inferInstanceAs (Decidable (_ ∧ _ ∧ _))
  | .write => inferInstanceAs (Decidable (_ ∧ _ ∧ _))

/-- What a reported mask asks for: `EPOLLHUP` without `EPOLLIN` for close, `EPOLLERR` for error,
`EPOLLIN` or `EPOLLPRI` for read and `EPOLLOUT` for write. -/
def Asked (c : Channel) (revents : Mask) : Callback → Prop
  | .close => revents &&& EPOLLHUP ≠ 0 ∧ revents &&& EPOLLIN = 0 ∧ c.closeCallback_ = true
  | .error => revents &&& EPOLLERR ≠ 0 ∧ c.errorCallback_ = true
  | .read => revents &&& (EPOLLIN ||| EPOLLPRI) ≠ 0 ∧ c.readCallback_ = true
  | .write => revents &&& EPOLLOUT ≠ 0 ∧ c.writeCallback_ = true

instance (c : Channel) (revents : Mask) : ∀ cb, Decidable (Asked c revents cb)
  | .close => inferInstanceAs (Decidable (_ ∧ _ ∧ _))
  | .error => inferInstanceAs (Decidable (_ ∧ _))
  | .read => inferInstanceAs (Decidable (_ ∧ _))
  | .write => inferInstanceAs (Decidable (_ ∧ _))

theorem mem_order (cb : Callback) : cb ∈ order := by
  cases cb <;> decide

/-- `handleEventWithGuard` goes through the four tests. -/
theorem handleEventWithGuard_eq (c : Channel) :
    c.handleEventWithGuard = order.filter fun cb => decide (Due c cb) := by
  have hone : ∀ cb, (if Due c cb then [cb] else []) = [cb].filter fun cb => decide (Due c cb) := by
    intro cb
    split <;> simp [*]
  have hguard : c.handleEventWithGuard = (if Due c .close then [.close] else []) ++
      (if Due c .error then [.error] else []) ++ (if Due c .read then [.read] else []) ++
      (if Due c .write then [.write] else []) := rfl
  rw [hguard, hone, hone, hone, hone, ← List.filter_append, ← List.filter_append,
    ← List.filter_append]
  rfl

/-- The callbacks that `revents` asks for; none if the channel is tied to a dead object. -/
def expected (c : Channel) (alive : Bool) (revents : Mask) : List Callback :=
  if c.tied_ = true ∧ alive = false then []
  else order.filter fun cb => decide (Asked c revents cb)

/-! ## A round of the loop -/

/-- The channels of a loop, the objects they are tied to, and the state of the user. -/
structure World (σ : Type*) where
  chans : Ptr → Channel
  /-- The object to which the channel is tied is alive. -/
  alive : Ptr → Bool
  user : σ

variable {σ : Type*}

/-- What `handleEvent` reads of a channel is the same in both. -/
structure SameDispatch (c c' : Channel) : Prop where
  revents : c'.revents_ = c.revents_
  tied : c'.tied_ = c.tied_
  close : c'.closeCallback_ = c.closeCallback_
  error : c'.errorCallback_ = c.errorCallback_
  read : c'.readCallback_ = c.readCallback_
  write : c'.writeCallback_ = c.writeCallback_

/-- All channels and ties are the same for `handleEvent`. -/
structure World.Same (w w' : World σ) : Prop where
  chans : ∀ this, SameDispatch (w.chans this) (w'.chans this)
  alive : w'.alive = w.alive

/-- What the callbacks of each channel do. They do not change `revents_`, the callbacks that are
set, or the ties. -/
structure Callbacks (σ : Type*) where
  invoke : Ptr → Callback → World σ → World σ
  same : ∀ this cb w, World.Same w (invoke this cb w)

/-- One test of `handleEventWithGuard`, and the callback behind it. -/
def test (cbs : Callbacks σ) (this : Ptr) (r : World σ × List Callback) (cb : Callback) :
    World σ × List Callback :=
  if Due (r.1.chans this) cb then (cbs.invoke this cb r.1, r.2 ++ [cb]) else r

def handleEventWithGuard (cbs : Callbacks σ) (w : World σ) (this : Ptr) :
    World σ × List Callback :=
  order.foldl (test cbs this) (w, [])

def handleEvent (cbs : Callbacks σ) (w : World σ) (this : Ptr) : World σ × List Callback :=
  if (w.chans this).tied_ then
    if w.alive this then handleEventWithGuard cbs w this else (w, [])
  else handleEventWithGuard cbs w this

def World.set_revents (w : World σ) (this : Ptr) (revents : Mask) : World σ :=
  { w with chans := update w.chans this { w.chans this with revents_ := revents } }

/-- `fillActiveChannels`, with the active channels that it pushes back. -/
def fillActiveChannels (w : World σ) : List (Ptr × Mask) → World σ × List Ptr
  | [] => (w, [])
  | event :: events =>
    let r := fillActiveChannels (w.set_revents event.1 event.2) events
    (r.1, event.1 :: r.2)

/-- The loop over `activeChannels_`. -/
def handleActiveChannels (cbs : Callbacks σ) (w : World σ) :
    List Ptr → World σ × List (Ptr × Callback)
  | [] => (w, [])
  | this :: rest =>
    let r := handleEvent cbs w this
    let r' := handleActiveChannels cbs r.1 rest
    (r'.1, r.2.map (Prod.mk this) ++ r'.2)

/-- What one call of `epoll_wait` fills in: no descriptor is reported twice. -/
structure Report where
  events : List (Ptr × Mask)
  nodup : (events.map Prod.fst).Nodup

/-- A round of `EventLoop::loop`, with the trace of the callbacks. -/
def loop (cbs : Callbacks σ) (w : World σ) (report : Report) :
    World σ × List (Ptr × Callback) :=
  let r := fillActiveChannels w report.events
  handleActiveChannels cbs r.1 r.2

/-! ## What callbacks leave alone -/

theorem World.Same.refl (w : World σ) : World.Same w w :=
  ⟨fun _ => ⟨rfl, rfl, rfl, rfl, rfl, rfl⟩, rfl⟩

theorem World.Same.trans {w w' w'' : World σ} (h : World.Same w w') (h' : World.Same w' w'') :
    World.Same w w'' := by
  refine ⟨fun this => ?_, h'.alive.trans h.alive⟩
  have hc := h.chans this
  have hc' := h'.chans this
  exact ⟨hc'.revents.trans hc.revents, hc'.tied.trans hc.tied, hc'.close.trans hc.close,
    hc'.error.trans hc.error, hc'.read.trans hc.read, hc'.write.trans hc.write⟩

theorem SameDispatch.due_iff {c c' : Channel} (h : SameDispatch c c') (cb : Callback) :
    Due c' cb ↔ Due c cb := by
  cases cb with
  | close => rw [Due, Due, h.revents, h.close]
  | error => rw [Due, Due, h.revents, h.error]
  | read => rw [Due, Due, h.revents, h.read]
  | write => rw [Due, Due, h.revents, h.write]

theorem SameDispatch.handleEventWithGuard_eq {c c' : Channel} (h : SameDispatch c c') :
    c'.handleEventWithGuard = c.handleEventWithGuard := by
  rw [ActiveChannels.handleEventWithGuard_eq, ActiveChannels.handleEventWithGuard_eq]
  exact List.filter_congr fun cb _ => decide_eq_decide.mpr (h.due_iff cb)

theorem World.Same.handleEvent_eq {w w' : World σ} (h : World.Same w w') (this : Ptr) :
    (w'.chans this).handleEvent (w'.alive this) = (w.chans this).handleEvent (w.alive this) := by
  have hc := h.chans this
  rw [Channel.handleEvent, Channel.handleEvent, hc.tied, hc.handleEventWithGuard_eq, h.alive]

/-- The tests see what they would have seen before the first callback. -/
theorem foldl_test (cbs : Callbacks σ) {w : World σ} (this : Ptr) (tests : List Callback)
    {r : World σ × List Callback} (hr : World.Same w r.1) :
    World.Same w (tests.foldl (test cbs this) r).1 ∧
      (tests.foldl (test cbs this) r).2 =
        r.2 ++ tests.filter fun cb => decide (Due (w.chans this) cb) := by
  induction tests generalizing r with
  | nil => exact ⟨hr, (List.append_nil _).symm⟩
  | cons cb tests ih =>
    have hiff := (hr.chans this).due_iff cb
    rw [List.foldl_cons]
    by_cases hdue : Due (w.chans this) cb
    · have htest : test cbs this r cb = (cbs.invoke this cb r.1, r.2 ++ [cb]) :=
        if_pos (hiff.mpr hdue)
      obtain ⟨hsame, htrace⟩ := ih (r := test cbs this r cb) (by
        rw [htest]
        exact hr.trans (cbs.same this cb r.1))
      refine ⟨hsame, htrace.trans ?_⟩
      rw [htest, List.filter_cons, if_pos (decide_eq_true hdue), List.append_assoc]
      rfl
    · have htest : test cbs this r cb = r := if_neg (mt hiff.mp hdue)
      rw [htest, List.filter_cons, if_neg (by simpa using hdue)]
      exact ih hr

/-- The callbacks of one channel are those of the model without effects. -/
theorem handleEvent_spec (cbs : Callbacks σ) (w : World σ) (this : Ptr) :
    World.Same w (handleEvent cbs w this).1 ∧
      (handleEvent cbs w this).2 = (w.chans this).handleEvent (w.alive this) := by
  have hguard := foldl_test cbs this order (r := (w, [])) (World.Same.refl w)
  rw [List.nil_append, ← handleEventWithGuard_eq] at hguard
  rw [handleEvent, Channel.handleEvent]
  split
  · split
    · exact hguard
    · exact ⟨World.Same.refl w, rfl⟩
  · exact hguard

/-- The trace of a loop over channels, by induction on the channels still to be handled. -/
theorem trace_handleActiveChannels (cbs : Callbacks σ) {w w' : World σ} (h : World.Same w w')
    (active : List Ptr) :
    (handleActiveChannels cbs w' active).2 = active.flatMap fun this =>
      ((w.chans this).handleEvent (w.alive this)).map (Prod.mk this) := by
  induction active generalizing w' with
  | nil => rfl
  | cons this rest ih =>
    obtain ⟨hsame, htrace⟩ := handleEvent_spec cbs w' this
    rw [handleActiveChannels, List.flatMap_cons, ih (h.trans hsame), htrace,
      h.handleEvent_eq this]

/-! ## What `fillActiveChannels` stores -/

theorem active_fillActiveChannels (w : World σ) (events : List (Ptr × Mask)) :
    (fillActiveChannels w events).2 = events.map Prod.fst ∧
      (fillActiveChannels w events).1.alive = w.alive := by
  induction events generalizing w with
  | nil => exact ⟨rfl, rfl⟩
  | cons event events ih =>
    obtain ⟨hactive, halive⟩ := ih (w.set_revents event.1 event.2)
    exact ⟨congrArg (event.1 :: ·) hactive, halive⟩

theorem chans_fillActiveChannels_other (w : World σ) {events : List (Ptr × Mask)} {this : Ptr}
    (hthis : this ∉ events.map Prod.fst) :
    (fillActiveChannels w events).1.chans this = w.chans this := by
  induction events generalizing w with
  | nil => rfl
  | cons event events ih =>
    rw [List.map_cons, List.mem_cons, not_or] at hthis
    exact (ih (w.set_revents event.1 event.2) hthis.2).trans (update_of_ne hthis.1 _ _)

/-- A channel that is reported once keeps the mask of its report. -/
theorem chans_fillActiveChannels (w : World σ) {events : List (Ptr × Mask)}
    (hnodup : (events.map Prod.fst).Nodup) {event : Ptr × Mask} (hevent : event ∈ events) :
    (fillActiveChannels w events).1.chans event.1 =
      { w.chans event.1 with revents_ := event.2 } := by
  induction events generalizing w with
  | nil => exact absurd hevent List.not_mem_nil
  | cons first events ih =>
    rw [List.map_cons, List.nodup_cons] at hnodup
    obtain rfl | hlater := List.mem_cons.mp hevent
    · exact (chans_fillActiveChannels_other _ hnodup.1).trans (update_self _ _ _)
    · have hne : event.1 ≠ first.1 := by
        intro heq
        exact hnodup.1 (heq ▸ List.mem_map_of_mem hlater)
      have hfill := ih (w.set_revents first.1 first.2) hnodup.2 hlater
      have hother : (w.set_revents first.1 first.2).chans event.1 = w.chans event.1 :=
        update_of_ne hne _ _
      rw [hother] at hfill
      exact hfill

/-! ## Dispatch and report -/

/-- The condition on a reported mask: where `handleEvent` runs the callbacks, a mask that is not
empty has `EPOLLIN` or `EPOLLPRI` if there is a read callback, and `EPOLLOUT` if there is a write
callback. -/
def Matches (c : Channel) (alive : Bool) (revents : Mask) : Prop :=
  (c.tied_ = true → alive = true) → revents ≠ 0 →
    (c.readCallback_ = true → revents &&& (EPOLLIN ||| EPOLLPRI) ≠ 0) ∧
      (c.writeCallback_ = true → revents &&& EPOLLOUT ≠ 0)

/-- For close and error the tests are right; for read and write they only see that the mask is not
empty. -/
theorem due_iff_asked (c : Channel) (revents : Mask) :
    (∀ cb, Due { c with revents_ := revents } cb ↔ Asked c revents cb) ↔
      (revents ≠ 0 → (c.readCallback_ = true → revents &&& (EPOLLIN ||| EPOLLPRI) ≠ 0) ∧
        (c.writeCallback_ = true → revents &&& EPOLLOUT ≠ 0)) := by
  have hbits : ∀ mask : Mask, revents &&& mask ≠ 0 → revents ≠ 0 := by
    rintro mask hbit rfl
    exact hbit BitVec.zero_and
  have hconst : ¬ EPOLLPRI &&& EPOLLIN ≠ 0 := by decide
  have hout : EPOLLOUT ≠ 0 := by decide
  constructor
  · intro h hne
    exact ⟨fun hread => ((h .read).mp ⟨hne, hconst, hread⟩).1,
      fun hwrite => ((h .write).mp ⟨hne, hout, hwrite⟩).1⟩
  · intro h cb
    cases cb with
    | close => exact and_congr_right fun _ => and_congr_left fun _ => not_not
    | error => exact Iff.rfl
    | read =>
      constructor
      · rintro ⟨hne, -, hread⟩
        exact ⟨(h hne).1 hread, hread⟩
      · rintro ⟨hbit, hread⟩
        exact ⟨hbits _ hbit, hconst, hread⟩
    | write =>
      constructor
      · rintro ⟨hne, -, hwrite⟩
        exact ⟨(h hne).2 hwrite, hwrite⟩
      · rintro ⟨hbit, hwrite⟩
        exact ⟨hbits _ hbit, hout, hwrite⟩

theorem filter_order_inj {p q : Callback → Prop} [DecidablePred p] [DecidablePred q] :
    (order.filter fun cb => decide (p cb)) = (order.filter fun cb => decide (q cb)) ↔
      ∀ cb, p cb ↔ q cb := by
  constructor
  · intro heq cb
    have hmem : cb ∈ order.filter (fun cb => decide (p cb)) ↔
        cb ∈ order.filter (fun cb => decide (q cb)) := by rw [heq]
    simpa [mem_order] using hmem
  · intro h
    exact List.filter_congr fun cb _ => decide_eq_decide.mpr (h cb)

/-- The dispatch of one channel. -/
theorem handleEvent_eq_expected_iff (c : Channel) (alive : Bool) (revents : Mask) :
    { c with revents_ := revents }.handleEvent alive = expected c alive revents ↔
      Matches c alive revents := by
  rw [Channel.handleEvent, expected, Matches, handleEventWithGuard_eq]
  by_cases hdead : c.tied_ = true ∧ alive = false
  · -- both sides are empty
    rw [if_pos hdead.1, if_neg (by simp [hdead.2]), if_pos hdead]
    exact iff_of_true rfl fun hlive => absurd (hlive hdead.1) (by simp [hdead.2])
  · have hlive : c.tied_ = true → alive = true := by
      intro htied
      by_contra hne
      exact hdead ⟨htied, by simpa using hne⟩
    have hguard : (if c.tied_ = true then
        if alive = true then order.filter (fun cb => decide (Due { c with revents_ := revents } cb))
        else [] else order.filter (fun cb => decide (Due { c with revents_ := revents } cb))) =
        order.filter (fun cb => decide (Due { c with revents_ := revents } cb)) := by
      split
      · rename_i htied
        rw [if_pos (hlive htied)]
      · rfl
    rw [if_neg hdead]
    simp only [hguard]
    rw [filter_order_inj, due_iff_asked]
    exact ⟨fun h _ => h, fun h => h hlive⟩

section Tagged

variable {events : List (Ptr × Mask)} (f : Ptr × Mask → List Callback)

theorem filter_tagged_other {this that : Ptr} (hne : that ≠ this) (l : List Callback) :
    (l.map (Prod.mk that)).filter (fun x => x.1 == this) = [] := by
  refine List.filter_eq_nil_iff.mpr fun x hx => ?_
  obtain ⟨cb, -, rfl⟩ := List.mem_map.mp hx
  simpa using hne

theorem filter_tagged_self (this : Ptr) (l : List Callback) :
    (l.map (Prod.mk this)).filter (fun x => x.1 == this) = l.map (Prod.mk this) := by
  refine List.filter_eq_self.mpr fun x hx => ?_
  obtain ⟨cb, -, rfl⟩ := List.mem_map.mp hx
  exact beq_self_eq_true this

theorem filter_flatMap_other {this : Ptr} (hthis : this ∉ events.map Prod.fst) :
    (events.flatMap fun e => (f e).map (Prod.mk e.1)).filter (fun x => x.1 == this) = [] := by
  induction events with
  | nil => rfl
  | cons event events ih =>
    rw [List.map_cons, List.mem_cons, not_or] at hthis
    rw [List.flatMap_cons, List.filter_append, filter_tagged_other (Ne.symm hthis.1), ih hthis.2]
    rfl

/-- A reported channel contributes to the trace what it does for its own report. -/
theorem filter_flatMap_tagged (hnodup : (events.map Prod.fst).Nodup) {event : Ptr × Mask}
    (hevent : event ∈ events) :
    (events.flatMap fun e => (f e).map (Prod.mk e.1)).filter (fun x => x.1 == event.1) =
      (f event).map (Prod.mk event.1) := by
  induction events with
  | nil => exact absurd hevent List.not_mem_nil
  | cons first events ih =>
    rw [List.map_cons, List.nodup_cons] at hnodup
    rw [List.flatMap_cons, List.filter_append]
    obtain rfl | hlater := List.mem_cons.mp hevent
    · rw [filter_tagged_self, filter_flatMap_other f hnodup.1, List.append_nil]
    · have hne : first.1 ≠ event.1 := by
        intro heq
        exact hnodup.1 (heq ▸ List.mem_map_of_mem hlater)
      rw [filter_tagged_other hne, List.nil_append]
      exact ih hnodup.2 hlater

end Tagged

/-- Traces of different channels are told apart by the channels. -/
theorem flatMap_tagged_inj {events : List (Ptr × Mask)} (hnodup : (events.map Prod.fst).Nodup)
    {f g : Ptr × Mask → List Callback} :
    (events.flatMap fun e => (f e).map (Prod.mk e.1)) =
        (events.flatMap fun e => (g e).map (Prod.mk e.1)) ↔ ∀ e ∈ events, f e = g e := by
  constructor
  · intro heq e he
    have hsame := congrArg (List.filter fun x => x.1 == e.1) heq
    rw [filter_flatMap_tagged f hnodup he, filter_flatMap_tagged g hnodup he] at hsame
    exact List.map_injective_iff.mpr (fun _ _ hcb => (Prod.mk.inj hcb).2) hsame
  · intro h
    exact List.flatMap_congr fun e he => by rw [h e he]

/-- **Dispatch follows the report** if and only if every reported mask that is not empty has the
bits of every read and write callback that can run. -/
theorem dispatch_follows_report_iff (cbs : Callbacks σ) (w : World σ) (report : Report) :
    (loop cbs w report).2 =
        (report.events.flatMap fun e =>
          (expected (w.chans e.1) (w.alive e.1) e.2).map (Prod.mk e.1)) ↔
      ∀ e ∈ report.events, Matches (w.chans e.1) (w.alive e.1) e.2 := by
  obtain ⟨hactive, halive⟩ := active_fillActiveChannels w report.events
  have htrace : (loop cbs w report).2 = report.events.flatMap fun e =>
      ({ w.chans e.1 with revents_ := e.2 }.handleEvent (w.alive e.1)).map (Prod.mk e.1) := by
    rw [loop, trace_handleActiveChannels cbs (World.Same.refl _), hactive, halive,
      List.flatMap_map]
    exact List.flatMap_congr fun e he => by rw [chans_fillActiveChannels w report.nodup he]
  rw [htrace, flatMap_tagged_inj report.nodup]
  exact forall₂_congr fun e _ => handleEvent_eq_expected_iff _ _ _

/-- Callbacks without any effect. -/
def idle : Callbacks Unit := ⟨fun _ _ w => w, fun _ _ w => World.Same.refl w⟩

/-- A channel with all four callbacks. -/
def connection : Channel where
  fd_ := 7
  readCallback_ := true
  writeCallback_ := true
  closeCallback_ := true
  errorCallback_ := true

/-- Data on one channel, and an error on another. -/
def dataAndError : Report where
  events := [(7, EPOLLIN), (9, EPOLLERR)]
  nodup := by decide

/-- Data to read also invokes the write callback, and an error both of them. -/
theorem dataAndError_dispatch :
    (loop idle ⟨fun _ => connection, fun _ => true, ()⟩ dataAndError).2 =
      [(7, .read), (7, .write), (9, .error), (9, .read), (9, .write)] ∧
    (loop idle ⟨fun _ => connection, fun _ => true, ()⟩ dataAndError).2 ≠
      dataAndError.events.flatMap fun e => (expected connection true e.2).map (Prod.mk e.1) := by
  decide

end CppInOne.Mymuduo.ActiveChannels
