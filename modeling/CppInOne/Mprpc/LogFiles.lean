import CppInOne.Mprpc.Logger

/-!
# The log files

What ends up in the log files, whatever the threads of the process do: the lines are the messages
in the order in which they were pushed, each once, and the messages of one thread in the order of
its calls. The time in front of a message, and with it the file, is the one of the round in which
the writer has waited for the message, so it is fixed before the message is there.

## Main definitions

- `calls` — the messages of a thread, from the macros it has called
- `opened` — the times of the writer's rounds

## Main results

- `log_files_complete`
-/

namespace CppInOne.Mprpc
open Transition ByteString

variable {Θ : Type*} [DecidableEq Θ]

/-! ## Where a message is -/

/-- A message that a thread has not pushed yet. -/
def Caller.pending : Caller → List LogMessage
  | .idle => []
  | .levelSet message => [message]
  | .logging message => [message]

/-- A message that the writer has popped and not written yet. -/
def Writer.held : Writer → List LogMessage
  | .opening => []
  | .popping _ => []
  | .tagging _ message => [message]
  | .writing line => [line.message]
  | .exited => []

/-- The time of the round that the writer is in. -/
def Writer.nowtm : Writer → List Tm
  | .opening => []
  | .popping nowtm => [nowtm]
  | .tagging nowtm _ => [nowtm]
  | .writing line => [line.nowtm]
  | .exited => []

namespace Logger

/-- The messages of the macros that `t` has called. -/
def calls (t : Θ) (as : List (Action Θ)) : List LogMessage :=
  as.filterMap fun
    | .SetLogLevel t' level text => if t' = t then some ⟨logmsg text, level⟩ else none
    | _ => none

omit [DecidableEq Θ] in
/-- The times at which the writer has opened a file. -/
def opened (as : List (Action Θ)) : List Tm :=
  as.filterMap fun
    | .fopen nowtm true => some nowtm
    | _ => none

/-! ## From the queue to the files -/

/-- What was popped has been written, or the writer has it. -/
structure Tracked (s : Logger Θ) : Prop where
  queue : s.m_lckQue.Inv
  popped : s.m_lckQue.popped = s.written.map Line.message ++ s.writer.held
  /-- The writer is in `Pop` while the queue has it there. -/
  coherent : s.Coherent

omit [DecidableEq Θ] in
theorem tracked_created : (created : Logger Θ).Tracked :=
  ⟨LockQueue.inv_empty, rfl, coherent_created⟩

theorem Tracked.step (s : Logger Θ) (a : Action Θ) (s' : Logger Θ) (h : s.Tracked)
    (hs : s.step a = some s') : s'.Tracked := by
  have hcoherent := h.coherent.step s a s' hs
  have hpopped := h.popped
  cases step_cases hs with
  | SetLogLevel level text ht => exact ⟨h.queue, hpopped, hcoherent⟩
  | Log ht => exact ⟨h.queue, hpopped, hcoherent⟩
  | @Push t message woken ht hwoken =>
    refine ⟨h.queue.push message hwoken, ?_, hcoherent⟩
    cases woken with
    | none => exact hpopped
    | some p => exact hpopped
  | fopen nowtm hw hp =>
    rw [hw] at hpopped
    have hnotified : s.m_lckQue.poppers () ≠ .notified := by
      rw [hp]
      exact Popper.noConfusion
    exact ⟨h.queue.setPopper hnotified Popper.noConfusion Popper.noConfusion, hpopped, hcoherent⟩
  | exit nowtm hw =>
    rw [hw] at hpopped
    exact ⟨h.queue, hpopped, hcoherent⟩
  | wait hw hempty =>
    refine ⟨h.queue.pop (), ?_, hcoherent⟩
    change (s.m_lckQue.Pop ()).popped = _
    rw [LockQueue.Pop_of_nil hempty]
    exact hpopped
  | @pop nowtm message rest hw hqueue =>
    refine ⟨h.queue.pop (), ?_, hcoherent⟩
    rw [hw] at hpopped
    change (s.m_lckQue.Pop ()).popped = s.written.map Line.message ++ [message]
    rw [LockQueue.Pop_of_cons hqueue]
    change s.m_lckQue.popped ++ [message] = _
    rw [hpopped, Writer.held, List.append_nil]
  | spurious hp =>
    have hnotified : s.m_lckQue.poppers () ≠ .notified := by
      rw [hp]
      exact Popper.noConfusion
    exact ⟨h.queue.setPopper hnotified Popper.noConfusion Popper.noConfusion, hpopped, hcoherent⟩
  | tag hw =>
    rw [hw] at hpopped
    exact ⟨h.queue, hpopped, hcoherent⟩
  | @write line hw =>
    rw [hw] at hpopped
    refine ⟨h.queue, ?_, hcoherent⟩
    change s.m_lckQue.popped = (s.written ++ [line]).map Line.message ++ []
    rw [hpopped, List.map_append, List.append_nil]
    rfl

omit [DecidableEq Θ] in
/-- While the writer sleeps, everything is in the files. -/
theorem Tracked.written_of_waiting {s : Logger Θ} (h : s.Tracked)
    (hw : s.m_lckQue.poppers () = .waiting) : s.written.map Line.message = s.m_lckQue.pushed := by
  obtain ⟨nowtm, hpopping⟩ := h.coherent.mp (by rw [hw]; exact Popper.noConfusion)
  have hempty : s.m_lckQue.m_queue = [] := by
    have hlength := h.queue.wakeups ⟨(), hw⟩
    have hnotified : s.m_lckQue.notified = ∅ := by
      ext p
      rw [LockQueue.mem_notified, hw]
      simp
    rw [hnotified, Finset.card_empty, Nat.le_zero] at hlength
    exact List.eq_nil_of_length_eq_zero hlength
  have horder := h.queue.order
  rw [hempty, List.append_nil, h.popped, hpopping, Writer.held, List.append_nil] at horder
  exact horder

/-! ## From the calls to the queue -/

/-- A step as the threads see it: a call of a macro, or a push of what is pending, or neither. -/
theorem calls_step {s s' : Logger Θ} {a : Action Θ} (hs : s.step a = some s') :
    ∃ tagged : List (Θ × LogMessage),
      s'.m_lckQue.pushed = s.m_lckQue.pushed ++ tagged.map Prod.snd ∧
      ∀ t, (s.threads t).pending ++ calls t [a] =
        (tagged.filter (·.1 = t)).map Prod.snd ++ (s'.threads t).pending := by
  have hsame : ∀ t : Θ, calls t [a] = [] → s'.threads t = s.threads t →
      (s.threads t).pending ++ calls t [a] = (s'.threads t).pending := by
    intro t hcalls hthreads
    rw [hcalls, hthreads, List.append_nil]
  cases step_cases hs with
  | @SetLogLevel t level text ht =>
    refine ⟨[], (List.append_nil _).symm, fun t' => ?_⟩
    by_cases heq : t' = t
    · subst heq
      rw [setThread_self, ht]
      simp [calls, Caller.pending]
    · rw [setThread_of_ne _ heq]
      simp [calls, Ne.symm heq]
  | @Log t message ht =>
    refine ⟨[], (List.append_nil _).symm, fun t' => ?_⟩
    by_cases heq : t' = t
    · subst heq
      rw [setThread_self, ht]
      rfl
    · rw [setThread_of_ne _ heq]
      exact List.append_nil _
  | @Push t message woken ht hwoken =>
    -- the message goes from the thread into the queue
    refine ⟨[(t, message)], ?_, fun t' => ?_⟩
    · cases woken with
      | none => rfl
      | some p => rfl
    · by_cases heq : t' = t
      · subst heq
        rw [setThread_self, ht]
        simp [calls, Caller.pending]
      · rw [setThread_of_ne _ heq]
        simp [calls, Ne.symm heq]
  -- the writer pushes nothing
  | wait hw hempty =>
    refine ⟨[], ?_, fun t => List.append_nil _⟩
    change (s.m_lckQue.Pop ()).pushed = _
    rw [LockQueue.Pop_of_nil hempty]
    exact (List.append_nil _).symm
  | pop hw hqueue =>
    refine ⟨[], ?_, fun t => List.append_nil _⟩
    change (s.m_lckQue.Pop ()).pushed = _
    rw [LockQueue.Pop_of_cons hqueue]
    exact (List.append_nil _).symm
  | fopen nowtm hw hp => exact ⟨[], (List.append_nil _).symm, fun t => List.append_nil _⟩
  | exit nowtm hw => exact ⟨[], (List.append_nil _).symm, fun t => List.append_nil _⟩
  | spurious hp => exact ⟨[], (List.append_nil _).symm, fun t => List.append_nil _⟩
  | tag hw => exact ⟨[], (List.append_nil _).symm, fun t => List.append_nil _⟩
  | write hw => exact ⟨[], (List.append_nil _).symm, fun t => List.append_nil _⟩

/-- The calls of each thread go through the queue in order, by induction on the run. -/
theorem calls_run {as : List (Action Θ)} {s s' : Logger Θ} (hrun : run step s as = some s') :
    ∃ tagged : List (Θ × LogMessage),
      s'.m_lckQue.pushed = s.m_lckQue.pushed ++ tagged.map Prod.snd ∧
      ∀ t, (s.threads t).pending ++ calls t as =
        (tagged.filter (·.1 = t)).map Prod.snd ++ (s'.threads t).pending := by
  induction as generalizing s with
  | nil =>
    cases hrun
    exact ⟨[], (List.append_nil _).symm, fun t => List.append_nil _⟩
  | cons a as ih =>
    obtain ⟨s₁, hstep, hrest⟩ := run_cons_eq_some.mp hrun
    obtain ⟨first, hpushed, hfirst⟩ := calls_step hstep
    obtain ⟨rest, hpushed', hrest'⟩ := ih hrest
    refine ⟨first ++ rest, ?_, fun t => ?_⟩
    · rw [hpushed', hpushed, List.map_append, List.append_assoc]
    · have hcalls : calls t (a :: as) = calls t [a] ++ calls t as := by
        rw [calls, ← List.singleton_append, List.filterMap_append]
        rfl
      rw [hcalls, ← List.append_assoc, hfirst t, List.append_assoc, hrest' t, List.filter_append,
        List.map_append, List.append_assoc]

/-! ## The times -/

theorem opened_step {s s' : Logger Θ} {a : Action Θ} (hs : s.step a = some s') :
    s'.written.map Line.nowtm ++ s'.writer.nowtm =
      s.written.map Line.nowtm ++ s.writer.nowtm ++ opened [a] := by
  cases step_cases hs with
  | SetLogLevel | Log | Push | wait | spurious => exact (List.append_nil _).symm
  | fopen nowtm hw =>
    rw [hw, Writer.nowtm, List.append_nil]
    rfl
  | exit nowtm hw =>
    rw [hw]
    exact (List.append_nil _).symm
  | pop hw | tag hw =>
    rw [hw]
    exact (List.append_nil _).symm
  | @write line hw =>
    rw [hw]
    change (s.written ++ [line]).map Line.nowtm ++ [] = _ ++ [line.nowtm] ++ []
    rw [List.map_append]
    rfl

theorem opened_run {as : List (Action Θ)} {s s' : Logger Θ} (hrun : run step s as = some s') :
    s'.written.map Line.nowtm ++ s'.writer.nowtm =
      s.written.map Line.nowtm ++ s.writer.nowtm ++ opened as := by
  induction as generalizing s with
  | nil =>
    cases hrun
    exact (List.append_nil _).symm
  | cons a as ih =>
    obtain ⟨s₁, hstep, hrest⟩ := run_cons_eq_some.mp hrun
    have hopened : opened (a :: as) = opened [a] ++ opened as := by
      rw [opened, ← List.singleton_append, List.filterMap_append]
      rfl
    rw [ih hrest, opened_step hstep, hopened, List.append_assoc _ (opened [a])]

/-- **The log files are complete and in order**: the lines and what is still on its way are the
messages that were pushed, in this order; these are the calls of the threads, those of each
thread in their order; line by line the times are those of the writer's rounds; and while the
writer sleeps every message is in a file. -/
theorem log_files_complete (as : List (Action Θ)) (s : Logger Θ)
    (hrun : run step created as = some s) :
    s.written.map Line.message ++ s.writer.held ++ s.m_lckQue.m_queue = s.m_lckQue.pushed ∧
      (∃ tagged : List (Θ × LogMessage), tagged.map Prod.snd = s.m_lckQue.pushed ∧
        ∀ t, calls t as = (tagged.filter (·.1 = t)).map Prod.snd ++ (s.threads t).pending) ∧
      opened as = s.written.map Line.nowtm ++ s.writer.nowtm ∧
      (s.m_lckQue.poppers () = .waiting → s.written.map Line.message = s.m_lckQue.pushed) := by
  have h : s.Tracked := reachable_invariant Tracked.step tracked_created ⟨as, hrun⟩
  obtain ⟨tagged, hpushed, hcalls⟩ := calls_run hrun
  refine ⟨?_, ⟨tagged, hpushed.symm, hcalls⟩, (opened_run hrun).symm, h.written_of_waiting⟩
  rw [← h.popped]
  exact h.queue.order

/-- The day of a round that waits. -/
def evening : Tm := ⟨124, 11, 31, 23, 59, 0⟩

/-- The writer waits in the evening, and a message comes later. -/
def afterMidnight : List (Action Bool) :=
  [.fopen evening true, .pop, .SetLogLevel true .INFO (ascii "new year"), .Log true,
    .Push true (some ()), .pop, .tag, .write]

/-- The message gets into the file of the old year. -/
theorem log_files_complete_afterMidnight : ∃ s, run step created afterMidnight = some s ∧
    s.written.map Line.file_name = [ascii "2024-12-31-log.txt"] ∧
      s.written.map Line.message ++ s.writer.held ++ s.m_lckQue.m_queue = s.m_lckQue.pushed ∧
      opened afterMidnight = s.written.map Line.nowtm ++ s.writer.nowtm := by
  refine ⟨_, rfl, by decide +kernel, ?_⟩
  obtain ⟨horder, -, hopened, -⟩ := log_files_complete afterMidnight _ rfl
  exact ⟨horder, hopened⟩

end Logger

end CppInOne.Mprpc
