import Mathlib.Data.List.DropRight
import Mathlib.Data.List.Nodup
import Mathlib.Data.List.Range
import CppInOne.Lib.Trace
import CppInOne.Mymuduo.EventLoop

/-!
# The order in which queued functors are executed

A run of the event loop is recorded: each push under `mutex_`, each swap, each functor that
is called and each end of `doPendingFunctors`. A pushed functor gets the number of the
pushes before it as its ticket, which tells it apart from every other push. The functors
in neither `pendingFunctors_` nor the record of executions are those of the current batch.

## Main results

- `run_recorded` — recording does not change what the loop does
- `functors_in_order` — first pushed, first executed, each once and batch by batch
-/

namespace CppInOne.Mymuduo.EventLoop
open Transition Trace

variable {F Tid : Type}

/-! ## Recorded runs -/

inductive Record (F : Type) where
  | pushed (functor : Nat × F)
  | swapped
  | executed (functor : Nat × F)
  | batchDone
  deriving DecidableEq, Repr

def Record.push : Record F → Option (Nat × F)
  | .pushed functor => some functor
  | _ => none

def Record.execution : Record F → Option (Nat × F)
  | .executed functor => some functor
  | _ => none

def Record.isSwap : Record F → Bool
  | .swapped => true
  | _ => false

/-- The functors pushed so far, in the order of the pushes. -/
def pushes (t : List (Record F)) : List (Nat × F) := t.filterMap Record.push

/-- The functors executed so far, in the order of the executions. -/
def executions (t : List (Record F)) : List (Nat × F) := t.filterMap Record.execution

/-- The same action on a loop whose functors carry tickets. -/
def Action.ticketed (ticket : Nat) : Action F Tid → Action (Nat × F) Tid
  | .push t cb => .push t (ticket, cb)
  | .storeQuit t => .storeQuit t
  | .wakeup t => .wakeup t
  | .enterLoop => .enterLoop
  | .testQuit => .testQuit
  | .pollReturn active => .pollReturn active
  | .nextChannel => .nextChannel
  | .handlerReturn => .handlerReturn
  | .storeCalling => .storeCalling
  | .swapFunctors => .swapFunctors
  | .nextFunctor => .nextFunctor
  | .functorReturn => .functorReturn
  | .endBatch => .endBatch
  | .ownPush cb => .ownPush (ticket, cb)
  | .ownTest => .ownTest
  | .ownWakeup => .ownWakeup
  | .ownQuit => .ownQuit

/-- What is recorded of a step from `s`. -/
def record (s : State (Nat × F) Tid) : Action (Nat × F) Tid → List (Record F)
  | .push _ cb => [.pushed cb]
  | .ownPush cb => [.pushed cb]
  | .swapFunctors => [.swapped]
  | .nextFunctor =>
    match s.pc with
    | .batch (functor :: _) => [.executed functor]
    | _ => []
  | .endBatch => [.batchDone]
  | _ => []

structure Recorded (F Tid : Type) where
  loop : State (Nat × F) Tid
  trace : List (Record F)

namespace Recorded

def start : Recorded F Tid := ⟨created, []⟩

def step [DecidableEq Tid] (r : Recorded F Tid) (a : Action F Tid) : Option (Recorded F Tid) :=
  let a := a.ticketed (pushes r.trace).length
  (EventLoop.step r.loop a).map fun loop => ⟨loop, r.trace ++ record r.loop a⟩

end Recorded

/-! ### Recording changes nothing -/

variable {G : Type}

def LoopPc.map (f : G → F) : LoopPc G → LoopPc F
  | .start => .start
  | .check => .check
  | .poll => .poll
  | .dispatch active => .dispatch active
  | .handler active => .handler active
  | .swap => .swap
  | .batch functors => .batch (functors.map f)
  | .functor functors => .functor (functors.map f)
  | .stopped => .stopped

def State.map (f : G → F) (s : State G Tid) : State F Tid where
  quit_ := s.quit_
  callingPendingFunctors_ := s.callingPendingFunctors_
  pendingFunctors_ := s.pendingFunctors_.map f
  wakeupCount := s.wakeupCount
  pc := s.pc.map f
  ownCall := s.ownCall
  callers := s.callers

/-- The loop never looks into a functor. -/
theorem step_ticketed [DecidableEq Tid] (s : State (Nat × F) Tid) (a : Action F Tid)
    (ticket : Nat) :
    (step s (a.ticketed ticket)).map (State.map Prod.snd) = step (s.map Prod.snd) a := by
  obtain ⟨quit, calling, pending, count, pc, own, callers⟩ := s
  cases a with
  | push t cb | storeQuit t | wakeup t =>
    by_cases ht : callers t = .idle <;> simp [Action.ticketed, step, State.map, ht]
  | pollReturn active =>
    cases pc with
    | poll =>
      by_cases hready : .wakeupFd ∈ active ∧ count = 0 <;>
        simp [Action.ticketed, step, State.map, LoopPc.map, hready]
    | _ => rfl
  | nextChannel =>
    cases pc with
    | dispatch active =>
      cases active with
      | nil => rfl
      | cons source rest => cases source <;> rfl
    | _ => rfl
  | storeCalling =>
    cases pc with
    | dispatch active => cases active <;> rfl
    | _ => rfl
  | nextFunctor | endBatch =>
    cases pc with
    | batch functors => cases functors <;> rfl
    | _ => rfl
  | handlerReturn | functorReturn => cases pc <;> cases own <;> rfl
  | ownPush cb | ownQuit =>
    cases pc <;> cases own <;>
      simp [Action.ticketed, step, State.map, State.userCode, LoopPc.map]
  | ownTest | ownWakeup => cases own <;> rfl
  | testQuit => cases pc <;> cases quit <;> rfl
  | enterLoop | swapFunctors => cases pc <;> rfl

/-- **The recorded loop runs exactly as the loop does.** -/
theorem run_recorded [DecidableEq Tid] (as : List (Action F Tid)) :
    (run Recorded.step Recorded.start as).map (fun r => r.loop.map Prod.snd) =
      run step (created : State F Tid) as := by
  refine run_map (fun r a => ?_) Recorded.start as
  rw [← step_ticketed r.loop a (pushes r.trace).length, Recorded.step, Option.map_map]
  rfl

/-! ## Batches -/

/-- The functors of the batch that are still to be called, inside `doPendingFunctors` after
the swap. -/
def LoopPc.current : LoopPc F → Option (List F)
  | .batch functors => some functors
  | .functor functors => some functors
  | _ => none

/-- The part of a trace up to its last swap. -/
def upToSwap (t : List (Record F)) : List (Record F) := t.rdropWhile fun e => !e.isSwap

/-- A functor is executed in the batch whose swap took it out, and the batch ends when all
its functors are executed. -/
def InBatch (pre : List (Record F)) : Record F → Prop
  | .executed functor => functor ∈ pushes (upToSwap pre)
  | .batchDone => ∀ functor ∈ pushes (upToSwap pre), functor ∈ executions pre
  | _ => True

structure Account (r : Recorded F Tid) : Prop where
  tickets : (pushes r.trace).map Prod.fst = List.range (pushes r.trace).length
  pushed : pushes r.trace =
    executions r.trace ++ r.loop.pc.current.getD [] ++ r.loop.pendingFunctors_
  batch : ∀ functors, r.loop.pc.current = some functors →
    pushes (upToSwap r.trace) = executions r.trace ++ functors
  inBatch : Justified InBatch r.trace

theorem account_start : Account (Recorded.start : Recorded F Tid) where
  tickets := rfl
  pushed := rfl
  batch _ h := by cases h
  inBatch := justified_nil

/-! ### What a step does to the queue -/

theorem pushes_concat (t : List (Record F)) (e : Record F) :
    pushes (t ++ [e]) = pushes t ++ e.push.toList := by
  cases e <;> simp [pushes, Record.push]

theorem executions_concat (t : List (Record F)) (e : Record F) :
    executions (t ++ [e]) = executions t ++ e.execution.toList := by
  cases e <;> simp [executions, Record.execution]

theorem upToSwap_concat (t : List (Record F)) {e : Record F} (h : e.isSwap = false) :
    upToSwap (t ++ [e]) = upToSwap t := by
  rw [upToSwap, List.rdropWhile_concat_pos _ _ _ (by simp [h])]
  rfl

theorem upToSwap_swapped (t : List (Record F)) : upToSwap (t ++ [.swapped]) = t ++ [.swapped] := by
  rw [upToSwap, List.rdropWhile_concat_neg _ _ _ (by simp [Record.isSwap])]

/-- The five things a step can do to the queue and the current batch. -/
inductive QueueStep (ticket : Nat) (s s' : State (Nat × F) Tid) : List (Record F) → Prop
  | quiet (hpending : s'.pendingFunctors_ = s.pendingFunctors_)
      (hcurrent : s'.pc.current = s.pc.current) : QueueStep ticket s s' []
  | push (cb : F) (hpending : s'.pendingFunctors_ = s.pendingFunctors_ ++ [(ticket, cb)])
      (hcurrent : s'.pc.current = s.pc.current) : QueueStep ticket s s' [.pushed (ticket, cb)]
  | swap (hcurrent : s.pc.current = none) (hpending : s'.pendingFunctors_ = [])
      (hcurrent' : s'.pc.current = some s.pendingFunctors_) : QueueStep ticket s s' [.swapped]
  | execute (functor : Nat × F) (rest : List (Nat × F))
      (hcurrent : s.pc.current = some (functor :: rest))
      (hpending : s'.pendingFunctors_ = s.pendingFunctors_)
      (hcurrent' : s'.pc.current = some rest) : QueueStep ticket s s' [.executed functor]
  | done (hcurrent : s.pc.current = some []) (hpending : s'.pendingFunctors_ = s.pendingFunctors_)
      (hcurrent' : s'.pc.current = none) : QueueStep ticket s s' [.batchDone]

theorem queueStep [DecidableEq Tid] {s s' : State (Nat × F) Tid} {a : Action F Tid}
    {ticket : Nat} (h : step s (a.ticketed ticket) = some s') :
    QueueStep ticket s s' (record s (a.ticketed ticket)) := by
  generalize ha : a.ticketed ticket = b at h ⊢
  cases Step.of_step h with
  | push t cb =>
    cases a with
    | push =>
      cases ha
      exact .push _ rfl rfl
    | _ => cases ha
  | ownPush cb =>
    cases a with
    | ownPush =>
      cases ha
      exact .push _ rfl rfl
    | _ => cases ha
  | storeQuit | wakeup | ownTest | ownWakeup | ownQuit => exact .quiet rfl rfl
  | swapFunctors hpc => exact .swap (by rw [hpc]; rfl) rfl rfl
  | nextFunctor functor rest hpc =>
    simp only [record, hpc]
    exact .execute functor rest (by rw [hpc]; rfl) rfl rfl
  | endBatch hpc => exact .done (by rw [hpc]; rfl) rfl rfl
  | enterLoop hpc | stop hpc | goOn hpc | pollReturn active hpc | handleRead rest hpc
  | handler rest hpc | handlerReturn rest hpc | storeCalling hpc | functorReturn rest hpc =>
    -- the loop moves between places outside `doPendingFunctors`, or within a functor
    exact .quiet rfl (by rw [hpc]; rfl)

/-! ### The account is kept -/

theorem Account.step [DecidableEq Tid] (r : Recorded F Tid) (a : Action F Tid)
    (r' : Recorded F Tid) (h : Account r) (hs : r.step a = some r') : Account r' := by
  obtain ⟨loop, hloop, rfl⟩ := Option.map_eq_some_iff.mp hs
  have hq := queueStep hloop
  obtain ⟨tickets, pushed, batch, inBatch⟩ := h
  generalize record r.loop (a.ticketed (pushes r.trace).length) = e at hq ⊢
  cases hq with
  | quiet hpending hcurrent =>
    rw [List.append_nil]
    exact ⟨tickets, by rw [hcurrent, hpending]; exact pushed, by rw [hcurrent]; exact batch,
      inBatch⟩
  | push cb hpending hcurrent =>
    refine ⟨?_, ?_, ?_, inBatch.concat trivial⟩
    · simp only [pushes_concat, Record.push, Option.toList_some, List.map_append, tickets,
        List.length_append, List.length_singleton]
      exact List.range_succ.symm
    · simp [pushes_concat, executions_concat, Record.push, Record.execution, hcurrent, hpending,
        pushed]
    · intro functors hfunctors
      have hbatch := batch functors (hcurrent ▸ hfunctors)
      rw [upToSwap_concat _ rfl]
      simpa [executions_concat, Record.execution] using hbatch
  | swap hcurrent hpending hcurrent' =>
    rw [hcurrent, Option.getD_none, List.append_nil] at pushed
    refine ⟨?_, ?_, ?_, inBatch.concat trivial⟩
    · simpa [pushes_concat, Record.push] using tickets
    · simp [pushes_concat, executions_concat, Record.push, Record.execution, hcurrent', hpending,
        pushed]
    · intro functors hfunctors
      obtain rfl : r.loop.pendingFunctors_ = functors :=
        Option.some.inj (hcurrent'.symm.trans hfunctors)
      -- everything pushed so far was executed in an earlier batch or is taken out now
      simpa [upToSwap_swapped, pushes_concat, executions_concat, Record.push, Record.execution]
        using pushed
  | execute functor rest hcurrent hpending hcurrent' =>
    have hbatch := batch _ hcurrent
    refine ⟨?_, ?_, ?_, inBatch.concat ?_⟩
    · simpa [pushes_concat, Record.push] using tickets
    · simp [pushes_concat, executions_concat, Record.push, Record.execution, hcurrent', hpending,
        pushed, hcurrent]
    · intro functors hfunctors
      obtain rfl : rest = functors := Option.some.inj (hcurrent'.symm.trans hfunctors)
      rw [upToSwap_concat _ rfl]
      simpa [executions_concat, Record.execution] using hbatch
    · show functor ∈ pushes (upToSwap r.trace)
      simp [hbatch]
  | done hcurrent hpending hcurrent' =>
    have hbatch := batch _ hcurrent
    refine ⟨?_, ?_, ?_, inBatch.concat ?_⟩
    · simpa [pushes_concat, Record.push] using tickets
    · simp [pushes_concat, executions_concat, Record.push, Record.execution, hcurrent', hpending,
        pushed, hcurrent]
    · intro functors hfunctors
      simp [hcurrent'] at hfunctors
    · intro functor hfunctor
      simpa [hbatch] using hfunctor

/-! ## First pushed, first executed -/

/-- Without a swap behind it, the last swap of a trace is this one. -/
theorem pushes_upToSwap (pre mid : List (Record F)) (h : .swapped ∉ mid) :
    pushes (upToSwap (pre ++ .swapped :: mid)) = pushes pre := by
  induction mid using List.reverseRecOn with
  | nil => simp [upToSwap_swapped, pushes_concat, Record.push]
  | append_singleton mid e ih =>
    have he : e.isSwap = false := by
      cases e <;> simp_all [Record.isSwap]
    have hmid : .swapped ∉ mid := fun hmem => h (List.mem_append_left _ hmem)
    rw [← List.cons_append, ← List.append_assoc, upToSwap_concat _ he, ih hmid]

/-- **Every functor is executed once, in the order of the pushes.** What has been executed is a
prefix of what has been pushed, and no functor occurs in it twice; a batch that is done has
executed every functor pushed before its swap; and a functor pushed behind the swap is not
executed in that batch. -/
theorem functors_in_order [DecidableEq Tid] {r : Recorded F Tid}
    (hr : Reachable Recorded.step Recorded.start r) :
    executions r.trace <+: pushes r.trace ∧ (executions r.trace).Nodup ∧
      (∀ pre mid post, r.trace = pre ++ .swapped :: mid ++ .batchDone :: post → .swapped ∉ mid →
        ∀ functor ∈ pushes pre, functor ∈ executions (pre ++ .swapped :: mid)) ∧
      ∀ pre mid post functor, r.trace = pre ++ .swapped :: mid ++ .executed functor :: post →
        .swapped ∉ mid → functor ∈ pushes pre ∧ functor ∉ pushes mid := by
  have hacc : Account r := reachable_invariant Account.step account_start hr
  have hfront : executions r.trace <+: pushes r.trace := by
    rw [hacc.pushed, List.append_assoc]
    exact List.prefix_append _ _
  have hnodup : (pushes r.trace).Nodup := by
    refine List.Nodup.of_map Prod.fst ?_
    rw [hacc.tickets]
    exact List.nodup_range
  refine ⟨hfront, hnodup.sublist hfront.sublist, ?_, ?_⟩
  · intro pre mid post htrace hmid functor hfunctor
    have hdone := hacc.inBatch _ _ _ htrace
    rw [← pushes_upToSwap pre mid hmid] at hfunctor
    exact hdone functor hfunctor
  · intro pre mid post functor htrace hmid
    have hin : functor ∈ pushes (upToSwap (pre ++ .swapped :: mid)) := hacc.inBatch _ _ _ htrace
    rw [pushes_upToSwap pre mid hmid] at hin
    refine ⟨hin, fun hlater => ?_⟩
    -- pushed before the swap and behind it, the functor would have its ticket twice
    have hsplit : pushes r.trace = pushes pre ++ (pushes mid ++ pushes post) := by
      simp [htrace, pushes, List.filterMap_append, List.filterMap_cons, Record.push]
    rw [hsplit] at hnodup
    exact (List.disjoint_of_nodup_append hnodup) hin (List.mem_append_left _ hlater)

/-- The functor that another functor queues waits for the next batch. -/
theorem functors_in_order_from_functor :
    ∃ r, run Recorded.step Recorded.start queueFromFunctor = some r ∧
      pushes r.trace = [(0, 10), (1, 11)] ∧ executions r.trace = [(0, 10)] ∧
        executions r.trace <+: pushes r.trace := by
  refine ⟨_, rfl, rfl, rfl, ?_⟩
  exact (functors_in_order ⟨queueFromFunctor, rfl⟩).1

end CppInOne.Mymuduo.EventLoop
