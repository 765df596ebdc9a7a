import Mathlib.Logic.Function.Basic
import CppInOne.Lib.Transition

/-!
# The event loop and its wakeup descriptor

A transition system for one running `EventLoop` and any number of other threads. A step is
one section under `mutex_`, one load or store of `quit_` or `callingPendingFunctors_`, one
write or read of the eventfd, or one return of `epoll_wait`. What event handlers and
functors do is left open: between entering and leaving one, the loop thread may call
`queueInLoop` and `quit` any number of times. `runInLoop` is `queueInLoop` on another thread
and a plain call on the loop thread, so it needs no step of its own.
-/

namespace CppInOne.Mymuduo.EventLoop
open Transition Function

variable {F Tid : Type}

/-- Where another thread is inside `queueInLoop` or `quit`, before its `wakeup()`. -/
inductive CallerPc where
  | idle
  | pushed
  | quitStored
  deriving DecidableEq, Repr

/-- Where the loop thread is inside a `queueInLoop` of its own: before the test of
`callingPendingFunctors_`, or before `wakeup()`. -/
inductive OwnCall where
  | none
  | pushed
  | waking
  deriving DecidableEq, Repr

/-- A descriptor reported by `epoll_wait`. -/
inductive Source where
  | wakeupFd
  | other
  deriving DecidableEq, Repr

/-- Where the loop thread is in `loop()`. -/
inductive LoopPc (F : Type) where
  /-- before `quit_ = false` -/
  | start
  /-- before the test `!quit_` -/
  | check
  /-- the test succeeded: before or inside `epoll_wait` -/
  | poll
  | dispatch (activeChannels : List Source)
  /-- inside a handler of the user -/
  | handler (activeChannels : List Source)
  /-- `callingPendingFunctors_ = true` is done, the swap is next -/
  | swap
  | batch (functors : List F)
  /-- inside a functor, `functors` being those after it -/
  | functor (functors : List F)
  | stopped
  deriving DecidableEq, Repr

structure State (F Tid : Type) where
  quit_ : Bool
  callingPendingFunctors_ : Bool
  pendingFunctors_ : List F
  /-- the counter behind `wakeupFd_` -/
  wakeupCount : Nat
  pc : LoopPc F
  ownCall : OwnCall
  callers : Tid → CallerPc

/-- A constructed loop, before `loop()`. -/
def created : State F Tid where
  quit_ := false
  callingPendingFunctors_ := false
  pendingFunctors_ := []
  wakeupCount := 0
  pc := .start
  ownCall := .none
  callers := fun _ => .idle

/-- Adding one to a nonblocking eventfd; the write is refused at the largest value. -/
def eventfdWrite (count : Nat) : Nat :=
  if count < 0xfffffffffffffffe then count + 1 else count

inductive Action (F Tid : Type) where
  /-- another thread's `queueInLoop`, the section under `mutex_` -/
  | push (t : Tid) (cb : F)
  /-- another thread's `quit`, the store -/
  | storeQuit (t : Tid)
  /-- the `wakeup()` of either -/
  | wakeup (t : Tid)
  | enterLoop
  | testQuit
  | pollReturn (activeChannels : List Source)
  | nextChannel
  | handlerReturn
  | storeCalling
  | swapFunctors
  | nextFunctor
  | functorReturn
  | endBatch
  /-- the loop thread's own `queueInLoop`, in three steps -/
  | ownPush (cb : F)
  | ownTest
  | ownWakeup
  | ownQuit
  deriving DecidableEq, Repr

/-- The loop thread runs code of the user and is not inside a call of its own. -/
def State.userCode (s : State F Tid) : Bool :=
  match s.pc, s.ownCall with
  | .handler _, .none => true
  | .functor _, .none => true
  | _, _ => false

def step [DecidableEq Tid] (s : State F Tid) : Action F Tid → Option (State F Tid)
  | .push t cb =>
    if s.callers t = .idle then
      some { s with pendingFunctors_ := s.pendingFunctors_ ++ [cb]
                    callers := update s.callers t .pushed }
    else none
  | .storeQuit t =>
    if s.callers t = .idle then
      some { s with quit_ := true, callers := update s.callers t .quitStored }
    else none
  | .wakeup t =>
    if s.callers t = .idle then none
    else some { s with wakeupCount := eventfdWrite s.wakeupCount
                       callers := update s.callers t .idle }
  | .enterLoop =>
    match s.pc with
    | .start => some { s with quit_ := false, pc := .check }
    | _ => none
  | .testQuit =>
    match s.pc with
    | .check => some { s with pc := if s.quit_ then .stopped else .poll }
    | _ => none
  | .pollReturn active =>
    match s.pc with
    -- the wakeup descriptor is ready exactly while its counter is nonzero
    | .poll => if .wakeupFd ∈ active ∧ s.wakeupCount = 0 then none
      else some { s with pc := .dispatch active }
    | _ => none
  | .nextChannel =>
    match s.pc with
    -- `handleRead` resets the counter
    | .dispatch (.wakeupFd :: rest) => some { s with wakeupCount := 0, pc := .dispatch rest }
    | .dispatch (.other :: rest) => some { s with pc := .handler rest }
    | _ => none
  | .handlerReturn =>
    match s.pc, s.ownCall with
    | .handler rest, .none => some { s with pc := .dispatch rest }
    | _, _ => none
  | .storeCalling =>
    match s.pc with
    | .dispatch [] => some { s with callingPendingFunctors_ := true, pc := .swap }
    | _ => none
  | .swapFunctors =>
    match s.pc with
    | .swap => some { s with pendingFunctors_ := [], pc := .batch s.pendingFunctors_ }
    | _ => none
  | .nextFunctor =>
    match s.pc with
    | .batch (_ :: rest) => some { s with pc := .functor rest }
    | _ => none
  | .functorReturn =>
    match s.pc, s.ownCall with
    | .functor rest, .none => some { s with pc := .batch rest }
    | _, _ => none
  | .endBatch =>
    match s.pc with
    | .batch [] => some { s with callingPendingFunctors_ := false, pc := .check }
    | _ => none
  | .ownPush cb =>
    if s.userCode then
      some { s with pendingFunctors_ := s.pendingFunctors_ ++ [cb], ownCall := .pushed }
    else none
  | .ownTest =>
    match s.ownCall with
    | .pushed => some { s with ownCall := if s.callingPendingFunctors_ then .waking else .none }
    | _ => none
  | .ownWakeup =>
    match s.ownCall with
    | .waking => some { s with wakeupCount := eventfdWrite s.wakeupCount, ownCall := .none }
    | _ => none
  | .ownQuit => if s.userCode then some { s with quit_ := true } else none

/-! ## What a step can do -/

/-- The branches of `step`. -/
inductive Step [DecidableEq Tid] (s : State F Tid) : Action F Tid → State F Tid → Prop where
  | push (t : Tid) (cb : F) (ht : s.callers t = .idle) :
    Step s (.push t cb) { s with pendingFunctors_ := s.pendingFunctors_ ++ [cb]
                                 callers := update s.callers t .pushed }
  | storeQuit (t : Tid) (ht : s.callers t = .idle) :
    Step s (.storeQuit t) { s with quit_ := true, callers := update s.callers t .quitStored }
  | wakeup (t : Tid) (ht : s.callers t ≠ .idle) :
    Step s (.wakeup t) { s with wakeupCount := eventfdWrite s.wakeupCount
                                callers := update s.callers t .idle }
  | enterLoop (hpc : s.pc = .start) : Step s .enterLoop { s with quit_ := false, pc := .check }
  | stop (hpc : s.pc = .check) (hquit : s.quit_ = true) : Step s .testQuit { s with pc := .stopped }
  | goOn (hpc : s.pc = .check) (hquit : s.quit_ = false) : Step s .testQuit { s with pc := .poll }
  | pollReturn (active : List Source) (hpc : s.pc = .poll)
    (hready : .wakeupFd ∈ active → s.wakeupCount ≠ 0) :
    Step s (.pollReturn active) { s with pc := .dispatch active }
  | handleRead (rest : List Source) (hpc : s.pc = .dispatch (.wakeupFd :: rest)) :
    Step s .nextChannel { s with wakeupCount := 0, pc := .dispatch rest }
  | handler (rest : List Source) (hpc : s.pc = .dispatch (.other :: rest)) :
    Step s .nextChannel { s with pc := .handler rest }
  | handlerReturn (rest : List Source) (hpc : s.pc = .handler rest) (hown : s.ownCall = .none) :
    Step s .handlerReturn { s with pc := .dispatch rest }
  | storeCalling (hpc : s.pc = .dispatch []) :
    Step s .storeCalling { s with callingPendingFunctors_ := true, pc := .swap }
  | swapFunctors (hpc : s.pc = .swap) :
    Step s .swapFunctors { s with pendingFunctors_ := [], pc := .batch s.pendingFunctors_ }
  | nextFunctor (functor : F) (rest : List F) (hpc : s.pc = .batch (functor :: rest)) :
    Step s .nextFunctor { s with pc := .functor rest }
  | functorReturn (rest : List F) (hpc : s.pc = .functor rest) (hown : s.ownCall = .none) :
    Step s .functorReturn { s with pc := .batch rest }
  | endBatch (hpc : s.pc = .batch []) :
    Step s .endBatch { s with callingPendingFunctors_ := false, pc := .check }
  | ownPush (cb : F) (huser : s.userCode = true) :
    Step s (.ownPush cb) { s with pendingFunctors_ := s.pendingFunctors_ ++ [cb]
                                  ownCall := .pushed }
  | ownTest (hown : s.ownCall = .pushed) :
    Step s .ownTest { s with ownCall := if s.callingPendingFunctors_ then .waking else .none }
  | ownWakeup (hown : s.ownCall = .waking) :
    Step s .ownWakeup { s with wakeupCount := eventfdWrite s.wakeupCount, ownCall := .none }
  | ownQuit (huser : s.userCode = true) : Step s .ownQuit { s with quit_ := true }

theorem Step.of_step [DecidableEq Tid] {s s' : State F Tid} {a : Action F Tid}
    (hs : step s a = some s') : Step s a s' := by
  cases a with
  -- `queueInLoop` and `quit` of another thread
  | push t cb =>
    obtain ⟨ht, heq⟩ := Option.ite_none_right_eq_some.mp hs
    cases heq
    exact .push t cb ht
  | storeQuit t =>
    obtain ⟨ht, heq⟩ := Option.ite_none_right_eq_some.mp hs
    cases heq
    exact .storeQuit t ht
  | wakeup t =>
    obtain ⟨ht, heq⟩ := Option.ite_none_left_eq_some.mp hs
    cases heq
    exact .wakeup t ht
  -- the loop, one branch for each place of its `pc`
  | enterLoop =>
    simp only [step] at hs
    split at hs
    · next hpc =>
      cases hs
      exact .enterLoop hpc
    · cases hs
  | testQuit =>
    simp only [step] at hs
    split at hs
    · next hpc =>
      cases hs
      split
      · next hquit => exact .stop hpc hquit
      · next hquit => exact .goOn hpc (Bool.eq_false_iff.mpr hquit)
    · cases hs
  | pollReturn active =>
    simp only [step] at hs
    split at hs
    · next hpc =>
      obtain ⟨hready, heq⟩ := Option.ite_none_left_eq_some.mp hs
      cases heq
      exact .pollReturn active hpc fun hmem hcount => hready ⟨hmem, hcount⟩
    · cases hs
  | nextChannel =>
    simp only [step] at hs
    split at hs
    · next rest hpc =>
      -- the counter of the event descriptor goes back to 0
      cases hs
      exact .handleRead rest hpc
    · next rest hpc =>
      cases hs
      exact .handler rest hpc
    · cases hs
  | handlerReturn =>
    simp only [step] at hs
    split at hs
    · next rest hpc hown =>
      -- a handler does not return in the middle of a call of its own
      cases hs
      exact .handlerReturn rest hpc hown
    · cases hs
  | storeCalling =>
    simp only [step] at hs
    split at hs
    · next hpc =>
      cases hs
      exact .storeCalling hpc
    · cases hs
  | swapFunctors =>
    simp only [step] at hs
    split at hs
    · next hpc =>
      cases hs
      exact .swapFunctors hpc
    · cases hs
  | nextFunctor =>
    simp only [step] at hs
    split at hs
    · next functor rest hpc =>
      cases hs
      exact .nextFunctor functor rest hpc
    · cases hs
  | functorReturn =>
    simp only [step] at hs
    split at hs
    · next rest hpc hown =>
      cases hs
      exact .functorReturn rest hpc hown
    · cases hs
  | endBatch =>
    simp only [step] at hs
    split at hs
    · next hpc =>
      cases hs
      exact .endBatch hpc
    · cases hs
  -- the calls of a handler or a functor, in the thread of the loop
  | ownPush cb =>
    obtain ⟨huser, heq⟩ := Option.ite_none_right_eq_some.mp hs
    cases heq
    exact .ownPush cb huser
  | ownTest =>
    simp only [step] at hs
    split at hs
    · next hown =>
      cases hs
      exact .ownTest hown
    · cases hs
  | ownWakeup =>
    simp only [step] at hs
    split at hs
    · next hown =>
      cases hs
      exact .ownWakeup hown
    · cases hs
  | ownQuit =>
    obtain ⟨huser, heq⟩ := Option.ite_none_right_eq_some.mp hs
    cases heq
    exact .ownQuit huser

/-! ## No lost wakeup -/

/-- `epoll_wait` will return: the counter is positive, or another thread is between its
push or store and its `wakeup()`. -/
def Covered (s : State F Tid) : Prop := 0 < s.wakeupCount ∨ ∃ t, s.callers t ≠ .idle

/-- From the swap on until `epoll_wait` returns, queued work must be covered. In the
handlers it need not be, since the swap is still ahead. -/
def LoopPc.armed : LoopPc F → Bool
  | .start | .check | .poll | .batch _ | .functor _ => true
  | _ => false

/-- Locations at which `callingPendingFunctors_` is set. -/
def LoopPc.calling : LoopPc F → Bool
  | .swap | .batch _ | .functor _ => true
  | _ => false

/-- Locations at which the loop thread runs code of the user. -/
def LoopPc.inUserCode : LoopPc F → Bool
  | .handler _ | .functor _ => true
  | _ => false

structure Inv (s : State F Tid) : Prop where
  user : s.ownCall ≠ .none → s.pc.inUserCode = true
  calling : s.pc.calling = true → s.callingPendingFunctors_ = true
  work : s.pc.armed = true → s.pendingFunctors_ ≠ [] → Covered s ∨ s.ownCall ≠ .none
  quit : s.pc = .poll → s.quit_ = true → Covered s

theorem eventfdWrite_pos (count : Nat) : 0 < eventfdWrite count := by
  rw [eventfdWrite]
  split <;> omega

theorem inv_created : Inv (created : State F Tid) where
  user h := absurd rfl h
  calling h := by cases h
  work _ h := absurd rfl h
  quit h := by cases h

theorem State.userCode_eq_true {s : State F Tid} (h : s.userCode = true) :
    s.pc.inUserCode = true ∧ s.ownCall = .none := by
  simp only [State.userCode] at h
  split at h
  · rename_i hpc hcall
    exact ⟨by rw [hpc]; rfl, hcall⟩
  · rename_i hpc hcall
    exact ⟨by rw [hpc]; rfl, hcall⟩
  · cases h

/-- User code never runs inside `epoll_wait`. -/
theorem LoopPc.ne_poll {pc : LoopPc F} (h : pc.inUserCode = true) : pc ≠ .poll := by
  rintro rfl
  cases h

/-- Outside user code the loop thread is not inside a call of its own. -/
theorem Inv.ownCall_eq_none {s : State F Tid} (h : Inv s) (hpc : s.pc.inUserCode = false) :
    s.ownCall = .none := by
  by_contra hne
  have huser := h.user hne
  rw [hpc] at huser
  cases huser

/-- Steps of the loop thread that end outside its own calls. -/
theorem Inv.of_loop {s : State F Tid} (hown : s.ownCall = .none)
    (hcalling : s.pc.calling = true → s.callingPendingFunctors_ = true)
    (hwork : s.pc.armed = true → s.pendingFunctors_ ≠ [] → Covered s)
    (hquit : s.pc = .poll → s.quit_ = true → Covered s) : Inv s where
  user hne := absurd hown hne
  calling := hcalling
  work harmed hne := Or.inl (hwork harmed hne)
  quit := hquit

/-- Steps of other threads: a push or store is followed by that thread's own wakeup. -/
theorem Inv.of_caller [DecidableEq Tid] {s : State F Tid} (h : Inv s) (t : Tid)
    {pc : CallerPc} (hpc : pc ≠ .idle) (pending : List F) (quit : Bool) :
    Inv { s with pendingFunctors_ := pending, quit_ := quit
                 callers := update s.callers t pc } where
  user := h.user
  calling := h.calling
  work _ _ := Or.inl (Or.inr ⟨t, by simpa using hpc⟩)
  quit _ _ := Or.inr ⟨t, by simpa using hpc⟩

/-- A wakeup covers everything. -/
theorem Inv.of_wakeup {s : State F Tid} (h : Inv s) {count : Nat} (hcount : 0 < count)
    {own : OwnCall} (hown : own ≠ .none → s.ownCall ≠ .none) (callers : Tid → CallerPc) :
    Inv { s with wakeupCount := count, ownCall := own, callers := callers } where
  user hne := h.user (hown hne)
  calling := h.calling
  work _ _ := Or.inl (Or.inl hcount)
  quit _ _ := Or.inl hcount

/-- Queued work that is not covered by a call of the loop thread itself. -/
theorem Inv.covered {s : State F Tid} (h : Inv s) (harmed : s.pc.armed = true)
    (hown : s.ownCall = .none) (hne : s.pendingFunctors_ ≠ []) : Covered s :=
  (h.work harmed hne).resolve_right fun h => h hown

/-- **Every step keeps the invariant.** -/
theorem Inv.step [DecidableEq Tid] (s : State F Tid) (a : Action F Tid) (s' : State F Tid)
    (h : Inv s) (hs : step s a = some s') : Inv s' := by
  cases Step.of_step hs with
  | push t cb => exact h.of_caller t (by decide) _ s.quit_
  | storeQuit t => exact h.of_caller t (by decide) s.pendingFunctors_ true
  | wakeup t => exact h.of_wakeup (eventfdWrite_pos _) (fun hne => hne) _
  | enterLoop hpc =>
    have hown := h.ownCall_eq_none (by rw [hpc]; rfl)
    -- what was queued before `loop()` keeps its own wakeup
    refine .of_loop hown (by simp [LoopPc.calling]) (fun _ => ?_) (by simp)
    exact h.covered (by rw [hpc]; rfl) hown
  | stop hpc hquit =>
    exact .of_loop (h.ownCall_eq_none (by rw [hpc]; rfl)) (by simp [LoopPc.calling])
      (by simp [LoopPc.armed]) (by simp)
  | goOn hpc hquit =>
    have hown := h.ownCall_eq_none (by rw [hpc]; rfl)
    refine .of_loop hown (by simp [LoopPc.calling]) (fun _ => ?_) (fun _ htrue => ?_)
    · exact h.covered (by rw [hpc]; rfl) hown
    · -- `quit_` was read as false in this very step
      rw [hquit] at htrue
      cases htrue
  | pollReturn active hpc | handleRead rest hpc | handler rest hpc | storeCalling hpc =>
    -- up to the swap nothing need be covered, the swap will take it all
    exact .of_loop (h.ownCall_eq_none (by rw [hpc]; rfl)) (by simp [LoopPc.calling])
      (by simp [LoopPc.armed]) (by simp)
  | handlerReturn rest hpc hown =>
    exact .of_loop hown (by simp [LoopPc.calling]) (by simp [LoopPc.armed]) (by simp)
  | swapFunctors hpc =>
    -- the queue is empty right after the swap
    exact .of_loop (h.ownCall_eq_none (by rw [hpc]; rfl)) (fun _ => h.calling (by rw [hpc]; rfl))
      (fun _ hne => absurd rfl hne) (by simp)
  | nextFunctor functor rest hpc =>
    have hown := h.ownCall_eq_none (by rw [hpc]; rfl)
    exact .of_loop hown (fun _ => h.calling (by rw [hpc]; rfl))
      (fun _ => h.covered (by rw [hpc]; rfl) hown) (by simp)
  | functorReturn rest hpc hown =>
    exact .of_loop hown (fun _ => h.calling (by rw [hpc]; rfl))
      (fun _ => h.covered (by rw [hpc]; rfl) hown) (by simp)
  | endBatch hpc =>
    have hown := h.ownCall_eq_none (by rw [hpc]; rfl)
    exact .of_loop hown (by simp [LoopPc.calling])
      (fun _ => h.covered (by rw [hpc]; rfl) hown) (by simp)
  | ownPush cb huser =>
    obtain ⟨hin, _⟩ := State.userCode_eq_true huser
    -- the loop thread owes the wakeup until it has tested the flag
    exact ⟨fun _ => hin, h.calling, fun _ _ => Or.inr (by simp),
      fun hpoll => absurd hpoll (LoopPc.ne_poll hin)⟩
  | ownTest hown =>
    have hin := h.user (by rw [hown]; decide)
    refine ⟨fun _ => hin, h.calling, fun harmed hne => ?_,
      fun hpoll => absurd hpoll (LoopPc.ne_poll hin)⟩
    -- in a functor the flag is set, so the test leads to `wakeup()`; a handler owes none
    cases hpc : s.pc with
    | functor rest =>
      have hflag := h.calling (by rw [hpc]; rfl)
      exact Or.inr (by simp [hflag])
    | handler rest =>
      simp only [hpc] at harmed
      cases harmed
    | _ =>
      rw [hpc] at hin
      cases hin
  | ownWakeup => exact h.of_wakeup (eventfdWrite_pos _) (fun hne => absurd rfl hne) _
  | ownQuit huser =>
    obtain ⟨hin, _⟩ := State.userCode_eq_true huser
    exact ⟨h.user, h.calling, h.work, fun hpoll => absurd hpoll (LoopPc.ne_poll hin)⟩

/-- **No lost wakeup.** Whenever the loop thread is about to enter `epoll_wait` or blocked
in it while a functor is queued or `quit_` is set, the wakeup counter is positive or
another thread is still going to write to it. -/
theorem no_lost_wakeup [DecidableEq Tid] {s : State F Tid}
    (h : Reachable step created s) (hpc : s.pc = .poll)
    (hwork : s.pendingFunctors_ ≠ [] ∨ s.quit_ = true) :
    0 < s.wakeupCount ∨ ∃ t, s.callers t ≠ .idle := by
  have hinv : Inv s := reachable_invariant Inv.step inv_created h
  obtain hne | hquit := hwork
  · exact hinv.covered (by rw [hpc]; rfl) (hinv.ownCall_eq_none (by rw [hpc]; rfl)) hne
  · exact hinv.quit hpc hquit

/-- A functor queues another one after the swap; its wakeup keeps the next `epoll_wait`
from blocking. -/
def queueFromFunctor : List (Action Nat Nat) :=
  [.push 1 10, .enterLoop, .testQuit, .wakeup 1, .pollReturn [.wakeupFd], .nextChannel,
    .storeCalling, .swapFunctors, .nextFunctor, .ownPush 11, .ownTest, .ownWakeup,
    .functorReturn, .endBatch, .testQuit]

theorem no_lost_wakeup_from_functor :
    ∃ s, run step created queueFromFunctor = some s ∧ s.pendingFunctors_ = [11] ∧
      (0 < s.wakeupCount ∨ ∃ t, s.callers t ≠ .idle) :=
  ⟨_, rfl, rfl, no_lost_wakeup ⟨queueFromFunctor, rfl⟩ rfl (.inl (List.cons_ne_nil _ _))⟩

end CppInOne.Mymuduo.EventLoop
