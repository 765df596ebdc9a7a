import CppInOne.Mymuduo.EventLoop

/-!
# The thread of an event loop

`startLoop` and the destructor run on the thread of the owner, `threadFunc` on the new one.
A step is one load or store of `loop_`, or a step of the event loop itself; other threads may
queue functors, and only the owner calls `quit`. The owner is the caller `none` of the loop.

## Main results

- `quit_not_lost` — a quit is lost exactly when it comes before `loop()` has reset `quit_`
-/

namespace CppInOne.Mymuduo.EventLoopThread
open Transition

variable {F T : Type}

/-- Where the owner is in `startLoop` and then in the destructor. -/
inductive OwnerPc where
  | constructed
  /-- the new thread runs; `startLoop` waits for `loop_` -/
  | waiting
  | returned
  /-- `exiting_ = true` is done -/
  | exiting
  /-- `loop_` was not null: in `quit`, before the store -/
  | quitting
  /-- before the `wakeup()` of `quit` -/
  | quitStored
  | joining
  | done
  deriving DecidableEq, Repr

/-- Where the new thread is in `threadFunc`. -/
inductive ThreadPc where
  | notStarted
  /-- before `loop_ = &loop` -/
  | created
  | looping
  | ended
  deriving DecidableEq, Repr

structure State (F T : Type) where
  owner : OwnerPc
  thread : ThreadPc
  /-- `loop_` is not null. -/
  loop_ : Bool
  exiting_ : Bool
  loop : EventLoop.State F (Option T)

inductive Action (F T : Type) where
  | startThread
  | seeLoop
  | storeExiting
  | testLoop
  | storeQuit
  | wakeup
  | join
  | publish
  | loop (a : EventLoop.Action F (Option T))
  | clearLoop

/-- The steps of the event loop that are not the owner's: nobody else calls `quit`. -/
def permitted : EventLoop.Action F (Option T) → Bool
  | .push caller _ => caller.isSome
  | .wakeup caller => caller.isSome
  | .storeQuit _ => false
  | .ownQuit => false
  | _ => true

def start : State F T where
  owner := .constructed
  thread := .notStarted
  loop_ := false
  exiting_ := false
  loop := EventLoop.created

def step [DecidableEq T] (s : State F T) : Action F T → Option (State F T)
  | .startThread =>
    if s.owner = .constructed then some { s with owner := .waiting, thread := .created } else none
  | .seeLoop => if s.owner = .waiting ∧ s.loop_ then some { s with owner := .returned } else none
  | .storeExiting =>
    if s.owner = .returned then some { s with owner := .exiting, exiting_ := true } else none
  | .testLoop =>
    if s.owner = .exiting then some { s with owner := if s.loop_ then .quitting else .done }
    else none
  | .storeQuit =>
    if s.owner = .quitting then
      (EventLoop.step s.loop (.storeQuit none)).map fun loop =>
        { s with owner := .quitStored, loop }
    else none
  | .wakeup =>
    -- the owner is not the loop thread
    if s.owner = .quitStored then
      (EventLoop.step s.loop (.wakeup none)).map fun loop => { s with owner := .joining, loop }
    else none
  | .join =>
    if s.owner = .joining ∧ s.thread = .ended then some { s with owner := .done } else none
  | .publish =>
    if s.thread = .created then some { s with thread := .looping, loop_ := true } else none
  | .loop a =>
    if s.thread = .looping ∧ permitted a then
      (EventLoop.step s.loop a).map fun loop => { s with loop }
    else none
  | .clearLoop =>
    match s.thread, s.loop.pc with
    | .looping, .stopped => some { s with thread := .ended, loop_ := false }
    | _, _ => none

/-- The loop thread is blocked in `epoll_wait` with nothing that will end it, and the owner
waits for the thread. -/
def Stuck (s : State F T) : Prop :=
  s.owner = .joining ∧ s.loop.pc = .poll ∧ s.loop.quit_ = false ∧ s.loop.wakeupCount = 0

/-- The condition on a step: `quit` stores `quit_` when `loop()` has reset it. -/
def InTime (s : State F T) : Action F T → Prop
  | .storeQuit => s.loop.pc ≠ .start
  | _ => True

instance [DecidableEq F] (s : State F T) : ∀ a, Decidable (InTime s a)
  | .storeQuit => inferInstanceAs (Decidable (_ ≠ _))
  | .startThread | .seeLoop | .storeExiting | .testLoop | .wakeup | .join | .publish | .loop _
  | .clearLoop => .isTrue trivial

/-! ## A quit in time -/

/-- `loop()` resets `quit_` at its start only. -/
theorem quit_kept [DecidableEq T] {s s' : EventLoop.State F T} {a : EventLoop.Action F T}
    (h : EventLoop.step s a = some s') (hpc : s.pc ≠ .start) :
    s'.pc ≠ .start ∧ (s.quit_ = true → s'.quit_ = true) := by
  cases EventLoop.Step.of_step h with
  | enterLoop hstart => exact absurd hstart hpc
  | push | wakeup | ownPush | ownTest | ownWakeup => exact ⟨hpc, id⟩
  | storeQuit | ownQuit => exact ⟨hpc, fun _ => rfl⟩
  | _ => exact ⟨by simp, id⟩

/-- Once the destructor's `quit` has stored `quit_`, it stays. -/
def QuitKept (s : State F T) : Prop :=
  s.owner = .quitStored ∨ s.owner = .joining → s.loop.pc ≠ .start ∧ s.loop.quit_ = true

theorem QuitKept.step [DecidableEq T] (s : State F T) (a : Action F T) (s' : State F T)
    (h : QuitKept s) (ha : InTime s a) (hs : step s a = some s') : QuitKept s' := by
  intro howner
  cases a with
  | storeQuit =>
    simp only [EventLoopThread.step, Option.ite_none_right_eq_some, Option.map_eq_some_iff] at hs
    obtain ⟨_, loop, hloop, rfl⟩ := hs
    obtain ⟨hpc, -⟩ := quit_kept hloop ha
    cases EventLoop.Step.of_step hloop
    exact ⟨hpc, rfl⟩
  | wakeup =>
    simp only [EventLoopThread.step, Option.ite_none_right_eq_some, Option.map_eq_some_iff] at hs
    obtain ⟨hstored, loop, hloop, rfl⟩ := hs
    obtain ⟨hpc, hquit⟩ := h (.inl hstored)
    obtain ⟨hpc', hquit'⟩ := quit_kept hloop hpc
    exact ⟨hpc', hquit' hquit⟩
  | loop a =>
    simp only [EventLoopThread.step, Option.ite_none_right_eq_some, Option.map_eq_some_iff] at hs
    obtain ⟨_, loop, hloop, rfl⟩ := hs
    obtain ⟨hpc, hquit⟩ := h howner
    obtain ⟨hpc', hquit'⟩ := quit_kept hloop hpc
    exact ⟨hpc', hquit' hquit⟩
  | testLoop =>
    simp only [EventLoopThread.step, Option.ite_none_right_eq_some, Option.some.injEq] at hs
    obtain ⟨_, rfl⟩ := hs
    cases hl : s.loop_ <;> simp [hl] at howner
  | startThread | seeLoop | storeExiting | join =>
    simp only [EventLoopThread.step, Option.ite_none_right_eq_some, Option.some.injEq] at hs
    obtain ⟨_, rfl⟩ := hs
    simp at howner
  | publish =>
    simp only [EventLoopThread.step, Option.ite_none_right_eq_some, Option.some.injEq] at hs
    obtain ⟨_, rfl⟩ := hs
    exact h howner
  | clearLoop =>
    simp only [EventLoopThread.step] at hs
    split at hs
    · cases hs
      exact h howner
    · cases hs

/-! ## A quit before the reset -/

/-- What holds of the two threads in every reachable state. -/
structure Inv (s : State F T) : Prop where
  loop : EventLoop.Inv s.loop
  constructed : s.owner = .constructed → s.thread = .notStarted
  running : s.loop_ = true → s.thread = .looping
  ended : s.thread = .ended → s.loop.pc = .stopped
  quitting : s.owner = .quitting ∨ s.owner = .quitStored ∨ s.owner = .joining →
    s.thread = .looping ∨ s.thread = .ended

theorem inv_start : Inv (start : State F T) where
  loop := EventLoop.inv_created
  constructed _ := rfl
  running h := by cases h
  ended h := by cases h
  quitting h := by simp [start] at h

/-- A call of the owner does not move the loop thread. -/
theorem pc_quit [DecidableEq T] {s s' : EventLoop.State F (Option T)}
    {a : EventLoop.Action F (Option T)} (ha : a = .storeQuit none ∨ a = .wakeup none)
    (h : EventLoop.step s a = some s') : s'.pc = s.pc := by
  obtain rfl | rfl := ha
  · cases EventLoop.Step.of_step h
    rfl
  · cases EventLoop.Step.of_step h
    rfl

theorem Inv.step [DecidableEq T] (s : State F T) (a : Action F T) (s' : State F T)
    (h : Inv s) (hs : step s a = some s') : Inv s' := by
  cases a with
  -- the destructor and `startLoop`
  | startThread =>
    simp only [EventLoopThread.step, Option.ite_none_right_eq_some, Option.some.injEq] at hs
    obtain ⟨howner, rfl⟩ := hs
    refine ⟨h.loop, by simp, fun hl => ?_, by simp, by simp⟩
    -- the thread has not run before it is started
    have hthread := h.running hl
    rw [h.constructed howner] at hthread
    cases hthread
  | seeLoop | storeExiting =>
    simp only [EventLoopThread.step, Option.ite_none_right_eq_some, Option.some.injEq] at hs
    obtain ⟨_, rfl⟩ := hs
    exact ⟨h.loop, by simp, h.running, h.ended, by simp⟩
  | testLoop =>
    simp only [EventLoopThread.step, Option.ite_none_right_eq_some, Option.some.injEq] at hs
    obtain ⟨_, rfl⟩ := hs
    refine ⟨h.loop, ?_, h.running, h.ended, fun howner => Or.inl (h.running ?_)⟩
    · cases s.loop_ <;> simp
    · cases hl : s.loop_ with
      | true => rfl
      | false => simp [hl] at howner
  | storeQuit =>
    simp only [EventLoopThread.step, Option.ite_none_right_eq_some, Option.map_eq_some_iff] at hs
    obtain ⟨howner, loop, hloop, rfl⟩ := hs
    exact ⟨h.loop.step _ _ _ hloop, by simp, h.running,
      fun hended => (pc_quit (.inl rfl) hloop).trans (h.ended hended),
      fun _ => h.quitting (.inl howner)⟩
  | wakeup =>
    simp only [EventLoopThread.step, Option.ite_none_right_eq_some, Option.map_eq_some_iff] at hs
    obtain ⟨howner, loop, hloop, rfl⟩ := hs
    exact ⟨h.loop.step _ _ _ hloop, by simp, h.running,
      fun hended => (pc_quit (.inr rfl) hloop).trans (h.ended hended),
      fun _ => h.quitting (.inr (.inl howner))⟩
  | join =>
    simp only [EventLoopThread.step, Option.ite_none_right_eq_some, Option.some.injEq] at hs
    obtain ⟨_, rfl⟩ := hs
    exact ⟨h.loop, by simp, h.running, h.ended, by simp⟩
  -- the thread
  | publish =>
    simp only [EventLoopThread.step, Option.ite_none_right_eq_some, Option.some.injEq] at hs
    obtain ⟨hthread, rfl⟩ := hs
    refine ⟨h.loop, fun howner => ?_, fun _ => rfl, by simp, fun _ => Or.inl rfl⟩
    rw [h.constructed howner] at hthread
    cases hthread
  | loop a =>
    simp only [EventLoopThread.step, Option.ite_none_right_eq_some, Option.map_eq_some_iff] at hs
    obtain ⟨⟨hthread, _⟩, loop, hloop, rfl⟩ := hs
    refine ⟨h.loop.step _ _ _ hloop, h.constructed, h.running, fun hended => ?_, h.quitting⟩
    rw [hthread] at hended
    cases hended
  | clearLoop =>
    simp only [EventLoopThread.step] at hs
    split at hs
    · rename_i hthread hpc
      cases hs
      -- `loop_` goes back to null only behind the end of the loop
      refine ⟨h.loop, fun howner => ?_, by simp, fun _ => hpc, fun _ => Or.inr rfl⟩
      rw [h.constructed howner] at hthread
      cases hthread
    · cases hs

/-- One iteration of `loop()` from its start: the wakeup of a lost `quit` is read, what is
queued is executed, and the loop polls again. -/
def oneIteration (pending : List F) : List (EventLoop.Action F (Option T)) :=
  [.enterLoop, .testQuit, .pollReturn [.wakeupFd], .nextChannel, .storeCalling, .swapFunctors] ++
    pending.flatMap (fun _ => [.nextFunctor, .functorReturn]) ++ [.endBatch, .testQuit]

theorem run_batch [DecidableEq T] (functors : List F) (s : EventLoop.State F (Option T))
    (hpc : s.pc = .batch functors) (hown : s.ownCall = .none) :
    run EventLoop.step s (functors.flatMap fun _ => [.nextFunctor, .functorReturn]) =
      some { s with pc := .batch [] } := by
  induction functors generalizing s with
  | nil =>
    rw [← hpc]
    rfl
  | cons f rest ih =>
    have hrest := ih { s with pc := .batch rest } rfl hown
    simpa [run_cons, EventLoop.step, hpc, hown] using hrest

/-- With `quit_` reset and no further wakeup the loop ends up in `epoll_wait`. -/
theorem run_oneIteration [DecidableEq T] {s : EventLoop.State F (Option T)} (hpc : s.pc = .start)
    (hown : s.ownCall = .none) (hcount : 0 < s.wakeupCount) :
    ∃ t, run EventLoop.step s (oneIteration s.pendingFunctors_) = some t ∧ t.pc = .poll ∧
      t.quit_ = false ∧ t.wakeupCount = 0 := by
  have hready : s.wakeupCount ≠ 0 := Nat.pos_iff_ne_zero.mp hcount
  have hbatch := run_batch s.pendingFunctors_
    { s with quit_ := false, callingPendingFunctors_ := true, pendingFunctors_ := []
             wakeupCount := 0, pc := .batch s.pendingFunctors_ } rfl hown
  rw [oneIteration, run_append, run_append]
  simp [run_cons, EventLoop.step, hpc, hready, hbatch]

/-- Steps of the event loop are steps of its thread. -/
theorem run_loop [DecidableEq T] {as : List (EventLoop.Action F (Option T))} {s : State F T}
    {loop : EventLoop.State F (Option T)} (hthread : s.thread = .looping)
    (has : ∀ a ∈ as, permitted a = true) (h : run EventLoop.step s.loop as = some loop) :
    run step s (as.map .loop) = some { s with loop } := by
  induction as generalizing s with
  | nil =>
    cases h
    rfl
  | cons a as ih =>
    obtain ⟨l, hl, hrest⟩ := run_cons_eq_some.mp h
    have hnext := ih (s := { s with loop := l }) hthread
      (fun b hb => has b (List.mem_cons_of_mem a hb)) hrest
    refine run_cons_eq_some.mpr ⟨{ s with loop := l }, ?_, hnext⟩
    simp [step, hthread, has a List.mem_cons_self, hl]

/-- A quit stored before the reset is lost: the loop can come to block for good. -/
theorem stuck_of_early [DecidableEq T] {s s' : State F T} (hs : Inv s)
    (hstep : step s .storeQuit = some s') (hpc : s.loop.pc = .start) :
    ∃ t, Reachable step s' t ∧ Stuck t := by
  simp only [step, Option.ite_none_right_eq_some, Option.map_eq_some_iff] at hstep
  obtain ⟨howner, loop, hloop, rfl⟩ := hstep
  have hthread : s.thread = .looping := by
    refine (hs.quitting (.inl howner)).resolve_right fun hended => ?_
    have hstopped := hs.ended hended
    rw [hpc] at hstopped
    cases hstopped
  have hown : s.loop.ownCall = .none := hs.loop.ownCall_eq_none (by rw [hpc]; rfl)
  cases EventLoop.Step.of_step hloop
  -- the owner's own wakeup comes next, then the loop thread runs alone
  let woken : EventLoop.State F (Option T) :=
    { s.loop with
      quit_ := true
      wakeupCount := EventLoop.eventfdWrite s.loop.wakeupCount
      callers := Function.update (Function.update s.loop.callers none .quitStored) none .idle }
  obtain ⟨t, hrun, htpc, htquit, htcount⟩ :=
    run_oneIteration (s := woken) hpc hown (EventLoop.eventfdWrite_pos _)
  have hpermitted : ∀ a ∈ oneIteration woken.pendingFunctors_, permitted (T := T) a = true := by
    intro a ha
    simp only [oneIteration, List.mem_append, List.mem_flatMap, List.mem_cons, List.not_mem_nil,
      or_false] at ha
    obtain (ha | ⟨_, _, ha⟩) | ha := ha
    · obtain rfl | rfl | rfl | rfl | rfl | rfl := ha <;> rfl
    · obtain rfl | rfl := ha <;> rfl
    · obtain rfl | rfl := ha <;> rfl
  have hthreads :=
    run_loop (s := { s with owner := .joining, loop := woken }) hthread hpermitted hrun
  refine ⟨_, ⟨.wakeup :: _, run_cons_eq_some.mpr ⟨_, ?_, hthreads⟩⟩, rfl, htpc, htquit, htcount⟩
  simp [step, EventLoop.step, woken]

/-- **The destructor's quit is not lost when it comes behind the reset of `quit_`, and only
then.** In a run whose `quit` is in time the loop thread never blocks with `quit_` false and no
wakeup while the owner waits in `join`; a `quit` before the reset can lead there. -/
theorem quit_not_lost [DecidableEq T] :
    (∀ (as : List (Action F T)) (s : State F T), run step start as = some s →
      Guarded step InTime start as → ¬ Stuck s) ∧
    ∀ s s' : State F T, Reachable step start s → step s .storeQuit = some s' →
      s.loop.pc = .start → ∃ t, Reachable step s' t ∧ Stuck t := by
  constructor
  · rintro as s hrun hguard ⟨howner, -, hquit, -⟩
    have hstart : QuitKept (start : State F T) := by simp [QuitKept, start]
    have hkept : QuitKept s := run_invariant QuitKept.step hstart hguard hrun
    obtain ⟨-, htrue⟩ := hkept (.inr howner)
    rw [hquit] at htrue
    cases htrue
  · intro s s' hs hstep hpc
    exact stuck_of_early (reachable_invariant Inv.step inv_start hs) hstep hpc

/-- The loop thread is in `loop()` when the owner destroys the object. -/
def longLived : List (Action Nat Nat) :=
  [.startThread, .publish, .seeLoop, .loop .enterLoop, .storeExiting, .testLoop, .storeQuit,
    .wakeup, .loop .testQuit, .clearLoop, .join]

theorem quit_not_lost_longLived :
    ∃ s, run step start longLived = some s ∧ s.owner = .done ∧ ¬ Stuck s :=
  ⟨_, rfl, rfl, quit_not_lost.1 longLived _ rfl (by decide)⟩

/-- `startLoop` returns, and the owner destroys the object before `loop()` is entered. -/
def shortLived : List (Action Nat Nat) :=
  [.startThread, .publish, .seeLoop, .storeExiting, .testLoop, .storeQuit, .wakeup] ++
    (oneIteration []).map .loop

theorem shortLived_stuck : ∃ s, run step start shortLived = some s ∧ Stuck s :=
  ⟨_, rfl, rfl, rfl, rfl, rfl⟩

end CppInOne.Mymuduo.EventLoopThread
