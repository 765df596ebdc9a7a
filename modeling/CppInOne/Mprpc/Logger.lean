import CppInOne.Lib.ByteString
import CppInOne.Mprpc.LockQueue

/-!
# The logger

Any number of threads in the macros `LOG_INFO` and `LOG_ERROR`, and the thread of `Logger` that
writes the messages. The macros store their level in the one field `m_loglevel`, and the writer
reads this field when it has popped a message, so a message gets the level of whoever called
last.

## Main definitions

- `Logger`, `Logger.step` — the threads, the queue and the writer
- `Logger.Agreed` — a level is set only while the messages on their way have this level

## Main results

- `levels_right` — then every line carries the level of its message
- `exists_wrong` — otherwise a line may carry a wrong one
-/

namespace CppInOne.Mprpc
open Transition Function ByteString

inductive LogLevel where
  | INFO
  | ERROR
  deriving DecidableEq, Repr

def LogLevel.toInt : LogLevel → Int
  | .INFO => 0
  | .ERROR => 1

/-- A message in the queue. The code passes on the text only. -/
structure LogMessage where
  text : List UInt8
  /-- The macro that was called. -/
  level : LogLevel
  deriving DecidableEq, Repr

/-- The fields of `struct tm` that are printed. -/
structure Tm where
  tm_year : Int
  tm_mon : Int
  tm_mday : Int
  tm_hour : Int
  tm_min : Int
  tm_sec : Int
  deriving DecidableEq, Repr, Inhabited

/-- A line that the writer prints. -/
structure Line where
  nowtm : Tm
  /-- What it puts between the brackets. -/
  tag : List UInt8
  message : LogMessage
  deriving DecidableEq, Repr

inductive Caller where
  | idle
  /-- behind `SetLogLevel` -/
  | levelSet (message : LogMessage)
  /-- in `Log`, before `Push` -/
  | logging (message : LogMessage)
  deriving DecidableEq, Repr

inductive Writer where
  /-- at the top of the loop -/
  | opening
  | popping (nowtm : Tm)
  /-- with a message, before it reads `m_loglevel` -/
  | tagging (nowtm : Tm) (message : LogMessage)
  | writing (line : Line)
  /-- The file could not be opened, the process is gone. -/
  | exited
  deriving DecidableEq, Repr

/-- The singleton, its writer, and the threads `Θ` that log. -/
structure Logger (Θ : Type*) where
  m_loglevel : Int
  m_lckQue : LockQueue Unit LogMessage
  threads : Θ → Caller
  writer : Writer
  /-- The lines in the log files. -/
  written : List Line

/-! ## Texts -/

/-- `msg` of the macros, as `Log` takes it. -/
def logmsg (text : List UInt8) : List UInt8 := (snprintf 1024 text).takeWhile (· ≠ 0)

def levelText (m_loglevel : Int) : List UInt8 :=
  if m_loglevel = LogLevel.INFO.toInt then ascii "info" else ascii "error"

/-- The name of the file of a line. -/
def Line.file_name (line : Line) : List UInt8 :=
  decimal (line.nowtm.tm_year + 1900) ++ ascii "-" ++ decimal (line.nowtm.tm_mon + 1) ++
    ascii "-" ++ decimal line.nowtm.tm_mday ++ ascii "-log.txt"

/-- What is put into the file. -/
def Line.text (line : Line) : List UInt8 :=
  decimal line.nowtm.tm_hour ++ ascii ":" ++ decimal line.nowtm.tm_min ++ ascii ":" ++
    decimal line.nowtm.tm_sec ++ ascii " => [" ++ line.tag ++ ascii "]" ++ line.message.text ++
    ascii "\n"

/-- The line carries the level of the macro. -/
def Line.Right (line : Line) : Prop :=
  (line.tag = ascii "info" ↔ line.message.level = .INFO) ∧
    (line.tag = ascii "error" ↔ line.message.level = .ERROR)

instance (line : Line) : Decidable line.Right := inferInstanceAs (Decidable (_ ∧ _))

namespace Logger

variable {Θ : Type*}

/-- The logger after `GetInstance`. A static object starts with `m_loglevel` zero. -/
def created : Logger Θ where
  m_loglevel := 0
  m_lckQue := .empty
  threads _ := .idle
  writer := .opening
  written := []

/-! ## Steps -/

inductive Action (Θ : Type*) where
  /-- The macro of this level, with the formatted text, calls `SetLogLevel`. -/
  | SetLogLevel (t : Θ) (level : LogLevel) (text : List UInt8)
  | Log (t : Θ)
  | Push (t : Θ) (woken : Option Unit)
  /-- The writer reads the time, opens the file and calls `Pop`. -/
  | fopen (nowtm : Tm) (opens : Bool)
  /-- The writer gets the mutex in `Pop`. -/
  | pop
  | spurious
  /-- The writer reads `m_loglevel`. -/
  | tag
  | write
  deriving DecidableEq, Repr

variable [DecidableEq Θ]

def setThread (s : Logger Θ) (t : Θ) (caller : Caller) : Logger Θ :=
  { s with threads := update s.threads t caller }

@[simp] theorem setThread_self (s : Logger Θ) (t : Θ) (caller : Caller) :
    (s.setThread t caller).threads t = caller := by
  simp [setThread]

theorem setThread_of_ne (s : Logger Θ) {t t' : Θ} (h : t' ≠ t) (caller : Caller) :
    (s.setThread t caller).threads t' = s.threads t' := by
  simp [setThread, h]

/-- A step of a running process. -/
def act (s : Logger Θ) : Action Θ → Option (Logger Θ)
  | .SetLogLevel t level text =>
    match s.threads t with
    | .idle =>
      some ({ s with m_loglevel := level.toInt }.setThread t (.levelSet ⟨logmsg text, level⟩))
    | _ => none
  | .Log t =>
    match s.threads t with
    | .levelSet message => some (s.setThread t (.logging message))
    | _ => none
  | .Push t woken =>
    match s.threads t with
    | .logging message =>
      (s.m_lckQue.step (.push message woken)).map fun q =>
        { s with m_lckQue := q }.setThread t .idle
    | _ => none
  | .fopen nowtm opens =>
    match s.writer with
    | .opening =>
      if opens = true then
        (s.m_lckQue.step (.call ())).map fun q =>
          { s with m_lckQue := q, writer := .popping nowtm }
      else some { s with writer := .exited }
    | _ => none
  | .pop =>
    match s.writer with
    | .popping nowtm =>
      (s.m_lckQue.step (.pop ())).map fun q =>
        { s with
          m_lckQue := q
          writer := match s.m_lckQue.m_queue with
            | [] => .popping nowtm
            | message :: _ => .tagging nowtm message }
    | _ => none
  | .spurious => (s.m_lckQue.step (.spurious ())).map fun q => { s with m_lckQue := q }
  | .tag =>
    match s.writer with
    | .tagging nowtm message =>
      some { s with writer := .writing ⟨nowtm, levelText s.m_loglevel, message⟩ }
    | _ => none
  | .write =>
    match s.writer with
    | .writing line => some { s with writer := .opening, written := s.written ++ [line] }
    | _ => none

def step (s : Logger Θ) (a : Action Θ) : Option (Logger Θ) :=
  if s.writer = .exited then none else s.act a

/-- The steps with what is known of the state before them. -/
inductive Step (s : Logger Θ) : Action Θ → Logger Θ → Prop where
  | SetLogLevel {t : Θ} (level : LogLevel) (text : List UInt8) (ht : s.threads t = .idle) :
    Step s (.SetLogLevel t level text)
      ({ s with m_loglevel := level.toInt }.setThread t (.levelSet ⟨logmsg text, level⟩))
  | Log {t : Θ} {message : LogMessage} (ht : s.threads t = .levelSet message) :
    Step s (.Log t) (s.setThread t (.logging message))
  | Push {t : Θ} {message : LogMessage} {woken : Option Unit} (ht : s.threads t = .logging message)
    (hwoken : s.m_lckQue.MayNotify woken) :
    Step s (.Push t woken)
      ({ s with m_lckQue := s.m_lckQue.Push message woken }.setThread t .idle)
  | fopen (nowtm : Tm) (hw : s.writer = .opening) (hp : s.m_lckQue.poppers () = .outside) :
    Step s (.fopen nowtm true)
      { s with m_lckQue := s.m_lckQue.setPopper () .entering, writer := .popping nowtm }
  | exit (nowtm : Tm) (hw : s.writer = .opening) : Step s (.fopen nowtm false)
      { s with writer := .exited }
  | wait {nowtm : Tm} (hw : s.writer = .popping nowtm) (hempty : s.m_lckQue.m_queue = []) :
    Step s .pop { s with m_lckQue := s.m_lckQue.Pop () }
  | pop {nowtm : Tm} {message : LogMessage} {rest : List LogMessage}
    (hw : s.writer = .popping nowtm) (hqueue : s.m_lckQue.m_queue = message :: rest) :
    Step s .pop
      { s with m_lckQue := s.m_lckQue.Pop (), writer := .tagging nowtm message }
  | spurious (hp : s.m_lckQue.poppers () = .waiting) :
    Step s .spurious { s with m_lckQue := s.m_lckQue.setPopper () .spurious }
  | tag {nowtm : Tm} {message : LogMessage} (hw : s.writer = .tagging nowtm message) :
    Step s .tag { s with writer := .writing ⟨nowtm, levelText s.m_loglevel, message⟩ }
  | write {line : Line} (hw : s.writer = .writing line) :
    Step s .write { s with writer := .opening, written := s.written ++ [line] }

theorem step_cases {s s' : Logger Θ} {a : Action Θ} (hs : s.step a = some s') : Step s a s' := by
  obtain ⟨_, hs⟩ := Option.ite_none_left_eq_some.mp hs
  cases a with
  -- the threads that log
  | SetLogLevel t level text =>
    simp only [act] at hs
    split at hs
    · next ht =>
      cases hs
      exact .SetLogLevel level text ht
    · cases hs
  | Log t =>
    simp only [act] at hs
    split at hs
    · next ht =>
      cases hs
      exact .Log ht
    · cases hs
  | Push t woken =>
    simp only [act] at hs
    split at hs
    · next ht =>
      obtain ⟨q, hq, rfl⟩ := Option.map_eq_some_iff.mp hs
      obtain ⟨hwoken, hq⟩ := Option.ite_none_right_eq_some.mp hq
      cases hq
      exact .Push ht hwoken
    · cases hs
  -- the writer; when the file cannot be opened the process ends
  | fopen nowtm opens =>
    simp only [act] at hs
    split at hs
    · next hw =>
      split at hs
      · next hopens =>
        obtain ⟨q, hq, rfl⟩ := Option.map_eq_some_iff.mp hs
        obtain ⟨hp, hq⟩ := Option.ite_none_right_eq_some.mp hq
        cases hq
        rw [hopens]
        exact .fopen nowtm hw hp
      · next hopens =>
        cases hs
        rw [Bool.not_eq_true] at hopens
        rw [hopens]
        exact .exit nowtm hw
    · cases hs
  | pop =>
    simp only [act] at hs
    split at hs
    · next nowtm hw =>
      obtain ⟨q, hq, rfl⟩ := Option.map_eq_some_iff.mp hs
      -- `Pop` either takes a message or falls asleep
      have hpop : q = s.m_lckQue.Pop () := by
        simp only [LockQueue.step] at hq
        split at hq
        all_goals first
          | exact (Option.some.inj hq).symm
          | cases hq
      subst hpop
      split
      · next hempty =>
        have hwait := Step.wait hw hempty
        rwa [← hw]
      · next hqueue => exact .pop hw hqueue
    · cases hs
  | spurious =>
    simp only [act] at hs
    obtain ⟨q, hq, rfl⟩ := Option.map_eq_some_iff.mp hs
    obtain ⟨hp, hq⟩ := Option.ite_none_right_eq_some.mp hq
    cases hq
    exact .spurious hp
  | tag =>
    simp only [act] at hs
    split at hs
    · next hw =>
      cases hs
      exact .tag hw
    · cases hs
  | write =>
    simp only [act] at hs
    split at hs
    · next hw =>
      cases hs
      exact .write hw
    · cases hs

/-! ## Messages on their way -/

/-- The message has its level set and not been tagged yet. -/
def OnWay (s : Logger Θ) (message : LogMessage) : Prop :=
  (∃ t, s.threads t = .levelSet message ∨ s.threads t = .logging message) ∨
    message ∈ s.m_lckQue.m_queue ∨ ∃ nowtm, s.writer = .tagging nowtm message

/-- `SetLogLevel` comes only while every message on its way has the same level. -/
def Agreed (s : Logger Θ) : Action Θ → Prop
  | .SetLogLevel _ level _ => ∀ message, s.OnWay message → message.level = level
  | _ => True

/-- The tag of a level is right for the messages of this level. -/
theorem levelText_right_iff (nowtm : Tm) (message : LogMessage) (level : LogLevel) :
    (Line.mk nowtm (levelText level.toInt) message).Right ↔ message.level = level := by
  have hall : ∀ l l' : LogLevel, ((levelText l.toInt = ascii "info" ↔ l' = .INFO) ∧
      (levelText l.toInt = ascii "error" ↔ l' = .ERROR)) ↔ l' = l := by
    intro l l'
    cases l <;> cases l' <;> decide
  exact hall level message.level

/-- The messages on their way have the level of the field, and all lines are right. -/
structure Inv (s : Logger Θ) : Prop where
  level : ∀ message, s.OnWay message → s.m_loglevel = message.level.toInt
  written : ∀ line ∈ s.written, line.Right
  writing : ∀ line, s.writer = .writing line → line.Right

omit [DecidableEq Θ] in
theorem inv_created : (created : Logger Θ).Inv where
  level := by
    rintro message (⟨_, h | h⟩ | h | ⟨_, h⟩)
    · cases h
    · cases h
    · cases h
    · cases h
  written := nofun
  writing := nofun

omit [DecidableEq Θ] in
/-- Messages only move along. -/
theorem Inv.of_onWay {s s' : Logger Θ} (h : s.Inv) (hlevel : s'.m_loglevel = s.m_loglevel)
    (hway : ∀ message, s'.OnWay message → s.OnWay message) (hwritten : s'.written = s.written)
    (hwriting : ∀ line, s'.writer = .writing line → s.writer = .writing line) : s'.Inv where
  level message hm := hlevel.trans (h.level message (hway message hm))
  written := by
    rw [hwritten]
    exact h.written
  writing line hline := h.writing line (hwriting line hline)

omit [DecidableEq Θ] in
theorem onWay_of_writer {s : Logger Θ} {nowtm : Tm} {message : LogMessage}
    (hw : s.writer = .tagging nowtm message) : s.OnWay message := Or.inr (Or.inr ⟨nowtm, hw⟩)

/-- What the threads are doing after one of them has gone on. -/
theorem threads_setThread {s : Logger Θ} {t t' : Θ} {caller caller' : Caller}
    (h : (s.setThread t caller).threads t' = caller') :
    caller = caller' ∨ s.threads t' = caller' := by
  by_cases ht : t' = t
  · subst ht
    rw [setThread_self] at h
    exact Or.inl h
  · rw [s.setThread_of_ne ht] at h
    exact Or.inr h

namespace Inv

variable {s : Logger Θ}

theorem setLevel (h : s.Inv) {t : Θ} {level : LogLevel} {text : List UInt8}
    (hagreed : s.Agreed (.SetLogLevel t level text)) :
    ({ s with m_loglevel := level.toInt }.setThread t (.levelSet ⟨logmsg text, level⟩)).Inv := by
  refine ⟨fun message hm => ?_, h.written, h.writing⟩
  have hlevel : message.level = level := by
    obtain ⟨t', ht' | ht'⟩ | hm := hm
    · obtain hnew | hold := threads_setThread ht'
      · cases hnew
        rfl
      · exact hagreed message (Or.inl ⟨t', Or.inl hold⟩)
    · obtain hnew | hold := threads_setThread ht'
      · cases hnew
      · exact hagreed message (Or.inl ⟨t', Or.inr hold⟩)
    · exact hagreed message (Or.inr hm)
  rw [hlevel]
  rfl

theorem log (h : s.Inv) {t : Θ} {message : LogMessage} (ht : s.threads t = .levelSet message) :
    (s.setThread t (.logging message)).Inv := by
  refine h.of_onWay rfl ?_ rfl fun _ => id
  rintro message' (⟨t', ht' | ht'⟩ | hm)
  · obtain hnew | hold := threads_setThread ht'
    · cases hnew
    · exact Or.inl ⟨t', Or.inl hold⟩
  · obtain hnew | hold := threads_setThread ht'
    · cases hnew
      exact Or.inl ⟨t, Or.inl ht⟩
    · exact Or.inl ⟨t', Or.inr hold⟩
  · exact Or.inr hm

theorem push (h : s.Inv) {t : Θ} {message : LogMessage} (woken : Option Unit)
    (ht : s.threads t = .logging message) :
    ({ s with m_lckQue := s.m_lckQue.Push message woken }.setThread t .idle).Inv := by
  refine h.of_onWay rfl ?_ rfl fun _ => id
  rintro message' (⟨t', ht' | ht'⟩ | hm | hw)
  · obtain hnew | hold := threads_setThread ht'
    · cases hnew
    · exact Or.inl ⟨t', Or.inl hold⟩
  · obtain hnew | hold := threads_setThread ht'
    · cases hnew
    · exact Or.inl ⟨t', Or.inr hold⟩
  · have hmem : message' ∈ (s.m_lckQue.Push message woken).m_queue := hm
    rw [LockQueue.Push_m_queue, List.mem_append, List.mem_singleton] at hmem
    obtain hmem | rfl := hmem
    · exact Or.inr (Or.inl hmem)
    · exact Or.inl ⟨t, Or.inr ht⟩
  · exact Or.inr (Or.inr hw)

theorem step (s : Logger Θ) (a : Action Θ) (s' : Logger Θ) (h : s.Inv) (ha : s.Agreed a)
    (hs : s.step a = some s') : s'.Inv := by
  cases step_cases hs with
  | SetLogLevel level text ht => exact h.setLevel ha
  | Log ht => exact h.log ht
  | Push ht hwoken => exact h.push _ ht
  | fopen nowtm hw hp =>
    refine h.of_onWay rfl ?_ rfl nofun
    rintro message (ht | hm | ⟨_, hw'⟩)
    · exact Or.inl ht
    · exact Or.inr (Or.inl hm)
    · cases hw'
  | exit nowtm hw =>
    refine h.of_onWay rfl ?_ rfl nofun
    rintro message (ht | hm | ⟨_, hw'⟩)
    · exact Or.inl ht
    · exact Or.inr (Or.inl hm)
    · cases hw'
  | wait hw hempty =>
    refine h.of_onWay rfl ?_ rfl fun _ => id
    rintro message (ht | hm | hw')
    · exact Or.inl ht
    · have hmem : message ∈ (s.m_lckQue.Pop ()).m_queue := hm
      rw [LockQueue.Pop_m_queue, hempty] at hmem
      exact absurd hmem List.not_mem_nil
    · exact Or.inr (Or.inr hw')
  | @pop nowtm message rest hw hqueue =>
    -- a message that leaves the queue is now with the writer
    refine h.of_onWay rfl ?_ rfl nofun
    rintro message' (ht | hm | ⟨_, hw'⟩)
    · exact Or.inl ht
    · have hmem : message' ∈ (s.m_lckQue.Pop ()).m_queue := hm
      rw [LockQueue.Pop_m_queue, hqueue] at hmem
      refine Or.inr (Or.inl ?_)
      rw [hqueue]
      exact List.mem_cons_of_mem message hmem
    · cases hw'
      refine Or.inr (Or.inl ?_)
      rw [hqueue]
      exact List.mem_cons_self
  | spurious hp => exact h.of_onWay rfl (fun _ => id) rfl fun _ => id
  | @tag nowtm message hw =>
    -- the tag is that of the level, and the level is that of the message
    have hlevel := h.level message (onWay_of_writer hw)
    refine ⟨?_, h.written, fun line hline => ?_⟩
    · rintro message' (ht | hm | ⟨_, hw'⟩)
      · exact h.level message' (Or.inl ht)
      · exact h.level message' (Or.inr (Or.inl hm))
      · cases hw'
    · cases hline
      rw [hlevel]
      exact (levelText_right_iff nowtm message message.level).mpr rfl
  | @write line hw =>
    refine ⟨?_, fun line' hline' => ?_, nofun⟩
    · rintro message' (ht | hm | ⟨_, hw'⟩)
      · exact h.level message' (Or.inl ht)
      · exact h.level message' (Or.inr (Or.inl hm))
      · cases hw'
    · obtain hold | hnew := List.mem_append.mp hline'
      · exact h.written line' hold
      · rw [List.mem_singleton.mp hnew]
        exact h.writing line hw

end Inv

/-- **Every line carries the level of its message**, if `SetLogLevel` is called only while every
message on its way has the level that is set. -/
theorem levels_right (as : List (Action Θ)) (s : Logger Θ) (hrun : run step created as = some s)
    (hagreed : Guarded step Agreed created as) : ∀ line ∈ s.written, line.Right :=
  (run_invariant Inv.step inv_created hagreed hrun).written

/-! ## Messages that get a wrong level -/

/-- The writer is in `Pop` when the queue has it there. -/
def Coherent (s : Logger Θ) : Prop :=
  s.m_lckQue.poppers () ≠ .outside ↔ ∃ nowtm, s.writer = .popping nowtm

omit [DecidableEq Θ] in
theorem coherent_created : (created : Logger Θ).Coherent :=
  ⟨fun h => absurd rfl h, fun ⟨_, h⟩ => nomatch h⟩

theorem Coherent.step (s : Logger Θ) (a : Action Θ) (s' : Logger Θ) (h : s.Coherent)
    (hs : s.step a = some s') : s'.Coherent := by
  have houtside : (∀ nowtm, s.writer ≠ .popping nowtm) → s.m_lckQue.poppers () = .outside := by
    intro hw
    by_contra hp
    obtain ⟨nowtm, hpopping⟩ := h.mp hp
    exact hw nowtm hpopping
  cases step_cases hs with
  | SetLogLevel level text ht => exact h
  | Log ht => exact h
  | @Push t message woken ht hwoken =>
    cases woken with
    | none => exact h
    | some p =>
      have hwaiting : s.m_lckQue.poppers () ≠ .outside := by
        rw [hwoken]
        exact Popper.noConfusion
      refine iff_of_true ?_ (h.mp hwaiting)
      show (LockQueue.setPopper _ () .notified).poppers () ≠ .outside
      rw [LockQueue.setPopper_self]
      exact Popper.noConfusion
  | fopen nowtm hw hp =>
    refine iff_of_true ?_ ⟨nowtm, rfl⟩
    show (s.m_lckQue.setPopper () .entering).poppers () ≠ .outside
    rw [LockQueue.setPopper_self]
    exact Popper.noConfusion
  | exit nowtm hw =>
    refine iff_of_false (not_not.mpr (houtside ?_)) nofun
    rw [hw]
    exact fun _ => Writer.noConfusion
  | @wait nowtm hw hempty =>
    refine iff_of_true ?_ ⟨nowtm, hw⟩
    show (s.m_lckQue.Pop ()).poppers () ≠ .outside
    rw [LockQueue.Pop_of_nil hempty, LockQueue.setPopper_self]
    exact Popper.noConfusion
  | pop hw hqueue =>
    refine iff_of_false (not_not.mpr ?_) nofun
    show (s.m_lckQue.Pop ()).poppers () = .outside
    rw [LockQueue.Pop_of_cons hqueue, LockQueue.setPopper_self]
  | spurious hp =>
    refine iff_of_true ?_ (h.mp (by rw [hp]; exact Popper.noConfusion))
    show (s.m_lckQue.setPopper () .spurious).poppers () ≠ .outside
    rw [LockQueue.setPopper_self]
    exact Popper.noConfusion
  | tag hw =>
    refine iff_of_false (not_not.mpr (houtside ?_)) nofun
    rw [hw]
    exact fun _ => Writer.noConfusion
  | write hw =>
    refine iff_of_false (not_not.mpr (houtside ?_)) nofun
    rw [hw]
    exact fun _ => Writer.noConfusion

/-- `s'` comes after `s` without any call of `SetLogLevel`. -/
structure Later (s s' : Logger Θ) : Prop where
  reachable : Reachable Logger.step s s'
  level : s'.m_loglevel = s.m_loglevel
  coherent : s.Coherent → s'.Coherent

namespace Later

variable {s s' s'' : Logger Θ}

theorem trans (h : Later s s') (h' : Later s' s'') : Later s s'' where
  reachable := h.reachable.trans h'.reachable
  level := h'.level.trans h.level
  coherent := fun hs => h'.coherent (h.coherent hs)

theorem of_act {a : Action Θ} (hs : s.writer ≠ .exited) (ha : s.act a = some s')
    (hlevel : s'.m_loglevel = s.m_loglevel) : Later s s' := by
  have hstep : s.step a = some s' := by rw [Logger.step, if_neg hs, ha]
  exact ⟨.of_step hstep, hlevel, fun h => h.step s a s' hstep⟩

end Later

/-- The writer goes on to the next `Pop`. -/
theorem later_fopen {s : Logger Θ} (hs : s.Coherent) (hw : s.writer = .opening) :
    ∃ s', Later s s' ∧ s'.writer = .popping default ∧ s'.m_lckQue.m_queue = s.m_lckQue.m_queue := by
  have hp : s.m_lckQue.poppers () = .outside := by
    by_contra hp
    obtain ⟨nowtm, hpopping⟩ := hs.mp hp
    rw [hw] at hpopping
    cases hpopping
  refine ⟨{ s with m_lckQue := s.m_lckQue.setPopper () .entering, writer := .popping default },
    .of_act (a := .fopen default true) (by rw [hw]; exact Writer.noConfusion) ?_ rfl, rfl, rfl⟩
  simp [act, hw, LockQueue.step, hp]

/-- The writer prints the message it has popped, with the level that is set now. -/
theorem later_written {s : Logger Θ} {nowtm : Tm} {message : LogMessage}
    (hw : s.writer = .tagging nowtm message) :
    ∃ s', Later s s' ∧ s'.writer = .opening ∧ s'.m_lckQue.m_queue = s.m_lckQue.m_queue ∧
      Line.mk nowtm (levelText s.m_loglevel) message ∈ s'.written := by
  let line : Line := ⟨nowtm, levelText s.m_loglevel, message⟩
  have htag : Later s { s with writer := .writing line } := by
    refine .of_act (a := .tag) (by rw [hw]; exact Writer.noConfusion) ?_ rfl
    simp [act, hw, line]
  have hwrite : Later { s with writer := .writing line }
      { s with writer := .opening, written := s.written ++ [line] } :=
    .of_act (a := .write) Writer.noConfusion rfl rfl
  exact ⟨_, htag.trans hwrite, rfl, rfl, by simp [line]⟩

/-- The writer is at the next `Pop` after it has finished what it is doing. -/
theorem later_popping {s : Logger Θ} (hs : s.Coherent) (hw : s.writer ≠ .exited) :
    ∃ s' nowtm, Later s s' ∧ s'.writer = .popping nowtm ∧
      s'.m_lckQue.m_queue = s.m_lckQue.m_queue := by
  cases hwriter : s.writer with
  | exited => exact absurd hwriter hw
  | popping nowtm =>
    exact ⟨s, nowtm, ⟨.refl _ _, rfl, id⟩, hwriter, rfl⟩
  | opening =>
    obtain ⟨s', hlater, hpopping, hqueue⟩ := later_fopen hs hwriter
    exact ⟨s', default, hlater, hpopping, hqueue⟩
  | writing line =>
    have hwrite : Later s { s with writer := .opening, written := s.written ++ [line] } := by
      refine .of_act (a := .write) hw ?_ rfl
      simp [act, hwriter]
    obtain ⟨s', hlater, hpopping, hqueue⟩ := later_fopen (hwrite.coherent hs) rfl
    exact ⟨s', default, hwrite.trans hlater, hpopping, hqueue⟩
  | tagging nowtm message =>
    obtain ⟨s₁, hlater₁, hopening, hqueue₁, _⟩ := later_written hwriter
    obtain ⟨s', hlater, hpopping, hqueue⟩ := later_fopen (hlater₁.coherent hs) hopening
    exact ⟨s', default, hlater₁.trans hlater, hpopping, hqueue.trans hqueue₁⟩

/-- The writer pops the next message. -/
theorem later_pop {s : Logger Θ} {nowtm : Tm} {message : LogMessage} {rest : List LogMessage}
    (hs : s.Coherent) (hw : s.writer = .popping nowtm)
    (hqueue : s.m_lckQue.m_queue = message :: rest) :
    ∃ s', Later s s' ∧ s'.writer = .tagging nowtm message ∧ s'.m_lckQue.m_queue = rest := by
  have hne : s.writer ≠ .exited := by
    rw [hw]
    exact Writer.noConfusion
  have hpop : ∀ s : Logger Θ, s.writer = .popping nowtm → s.m_lckQue.m_queue = message :: rest →
      s.m_lckQue.poppers () ≠ .outside → s.m_lckQue.poppers () ≠ .waiting →
      ∃ s', Later s s' ∧ s'.writer = .tagging nowtm message ∧ s'.m_lckQue.m_queue = rest := by
    intro s hw hqueue houtside hwaiting
    refine ⟨{ s with m_lckQue := s.m_lckQue.Pop (), writer := .tagging nowtm message },
      .of_act (a := .pop) (by rw [hw]; exact Writer.noConfusion) ?_ rfl, rfl, ?_⟩
    · have hstep : s.m_lckQue.step (.pop ()) = some (s.m_lckQue.Pop ()) := by
        simp only [LockQueue.step]
        split
        · rfl
        · rfl
        · rfl
        · next h => exact absurd h houtside
        · next h => exact absurd h hwaiting
      simp [act, hw, hstep, hqueue]
    · rw [LockQueue.Pop_m_queue, hqueue, List.tail_cons]
  by_cases hwaiting : s.m_lckQue.poppers () = .waiting
  · have hwake : Later s { s with m_lckQue := s.m_lckQue.setPopper () .spurious } := by
      refine .of_act (a := .spurious) hne ?_ rfl
      simp [act, LockQueue.step, hwaiting]
    obtain ⟨s', hlater, htagging, hrest⟩ := hpop
      { s with m_lckQue := s.m_lckQue.setPopper () .spurious } hw hqueue (by simp) (by simp)
    exact ⟨s', hwake.trans hlater, htagging, hrest⟩
  · exact hpop s hw hqueue (hs.mpr ⟨nowtm, hw⟩) hwaiting

/-- The writer may print any message of the queue with the level that is set now. -/
theorem later_queue {s : Logger Θ} {message : LogMessage} (hs : s.Coherent)
    (hw : s.writer ≠ .exited) (hm : message ∈ s.m_lckQue.m_queue) :
    ∃ s' nowtm, Later s s' ∧ Line.mk nowtm (levelText s.m_loglevel) message ∈ s'.written := by
  induction hqueue : s.m_lckQue.m_queue generalizing s with
  | nil =>
    rw [hqueue] at hm
    exact absurd hm List.not_mem_nil
  | cons first rest ih =>
    obtain ⟨s₁, nowtm, hlater₁, hpopping, hqueue₁⟩ := later_popping hs hw
    rw [hqueue] at hqueue₁
    obtain ⟨s₂, hlater₂, htagging, hrest⟩ :=
      later_pop (hlater₁.coherent hs) hpopping hqueue₁
    obtain ⟨s₃, hlater₃, hopening, hqueue₃, hline⟩ := later_written htagging
    have hlater := (hlater₁.trans hlater₂).trans hlater₃
    rw [hqueue] at hm
    obtain rfl | hm := List.mem_cons.mp hm
    · rw [(hlater₁.trans hlater₂).level] at hline
      exact ⟨s₃, nowtm, hlater, hline⟩
    · have hqueue' : s₃.m_lckQue.m_queue = rest := hqueue₃.trans hrest
      obtain ⟨s', nowtm', hlater', hline'⟩ := ih (hlater.coherent hs)
        (by rw [hopening]; exact Writer.noConfusion) (by rw [hqueue']; exact hm) hqueue'
      rw [hlater.level] at hline'
      exact ⟨s', nowtm', hlater.trans hlater', hline'⟩

theorem later_push {s : Logger Θ} {t : Θ} {message : LogMessage} (hw : s.writer ≠ .exited)
    (ht : s.threads t = .logging message) :
    ∃ s', Later s s' ∧ s'.writer = s.writer ∧ message ∈ s'.m_lckQue.m_queue := by
  have hwoken : ∃ woken, s.m_lckQue.MayNotify woken := by
    by_cases hp : s.m_lckQue.poppers () = .waiting
    · exact ⟨some (), hp⟩
    · exact ⟨none, fun _ => hp⟩
  obtain ⟨woken, hwoken⟩ := hwoken
  refine ⟨{ s with m_lckQue := s.m_lckQue.Push message woken }.setThread t .idle,
    .of_act (a := .Push t woken) hw ?_ rfl, rfl, ?_⟩
  · simp [act, ht, LockQueue.step, hwoken]
  · show message ∈ (s.m_lckQue.Push message woken).m_queue
    rw [LockQueue.Push_m_queue]
    exact List.mem_append_right _ List.mem_cons_self

/-- Any message on its way may be printed with the level that is set now. -/
theorem later_onWay {s : Logger Θ} {message : LogMessage} (hs : s.Coherent)
    (hw : s.writer ≠ .exited) (hm : s.OnWay message) :
    ∃ s' nowtm, Later s s' ∧ Line.mk nowtm (levelText s.m_loglevel) message ∈ s'.written := by
  have hlogging : ∀ s : Logger Θ, s.Coherent → s.writer ≠ .exited → ∀ t,
      s.threads t = .logging message →
      ∃ s' nowtm, Later s s' ∧ Line.mk nowtm (levelText s.m_loglevel) message ∈ s'.written := by
    intro s hs hw t ht
    obtain ⟨s₁, hlater₁, hwriter, hmem⟩ := later_push hw ht
    obtain ⟨s', nowtm, hlater, hline⟩ :=
      later_queue (hlater₁.coherent hs) (by rw [hwriter]; exact hw) hmem
    rw [hlater₁.level] at hline
    exact ⟨s', nowtm, hlater₁.trans hlater, hline⟩
  obtain ⟨t, ht | ht⟩ | hm | ⟨nowtm, hwriter⟩ := hm
  · have hlog : Later s (s.setThread t (.logging message)) := by
      refine .of_act (a := .Log t) hw ?_ rfl
      simp [act, ht]
    obtain ⟨s', nowtm, hlater, hline⟩ :=
      hlogging _ (hlog.coherent hs) hw t (s.setThread_self t (.logging message))
    exact ⟨s', nowtm, hlog.trans hlater, hline⟩
  · exact hlogging s hs hw t ht
  · exact later_queue hs hw hm
  · obtain ⟨s', hlater, _, _, hline⟩ := later_written hwriter
    exact ⟨s', nowtm, hlater, hline⟩

/-- A call of `SetLogLevel` while a message of another level is on its way may be followed by a
line with a wrong level. -/
theorem exists_wrong {s s' : Logger Θ} {t : Θ} {level : LogLevel} {text : List UInt8}
    {message : LogMessage} (hreach : Reachable step created s)
    (hs : s.step (.SetLogLevel t level text) = some s') (hm : s.OnWay message)
    (hlevel : message.level ≠ level) :
    ∃ s'', Reachable step s' s'' ∧ ∃ line ∈ s''.written, ¬ line.Right := by
  have hcoherent : s'.Coherent :=
    (reachable_invariant Coherent.step coherent_created hreach).step s _ s' hs
  obtain ⟨hw, _⟩ := Option.ite_none_left_eq_some.mp hs
  cases step_cases hs with
  | SetLogLevel level text ht =>
    have hm' : ({ s with m_loglevel := level.toInt }.setThread t
        (.levelSet ⟨logmsg text, level⟩)).OnWay message := by
      obtain ⟨t', ht'⟩ | hm := hm
      · have hne : t' ≠ t := by
          rintro rfl
          rw [ht] at ht'
          obtain ht' | ht' := ht'
          · cases ht'
          · cases ht'
        refine Or.inl ⟨t', ?_⟩
        rw [setThread_of_ne _ hne]
        exact ht'
      · exact Or.inr hm
    obtain ⟨s'', nowtm, hlater, hline⟩ := later_onWay hcoherent hw hm'
    refine ⟨s'', hlater.reachable, _, hline, fun hright => hlevel ?_⟩
    exact (levelText_right_iff nowtm message level).mp hright

/-! ## Runs -/

/-- An error behind an information, by one thread, when the first message has been printed. -/
def oneByOne : List (Action Unit) :=
  [.fopen ⟨126, 0, 2, 10, 20, 30⟩ true, .SetLogLevel () .INFO (ascii "up"), .Log (), .pop,
    .Push () (some ()), .pop, .tag, .write, .SetLogLevel () .ERROR (ascii "down"), .Log (),
    .fopen ⟨126, 0, 2, 10, 20, 31⟩ true, .Push () none, .pop, .tag, .write]

/-- The same calls back to back. -/
def backToBack : List (Action Unit) :=
  [.fopen ⟨126, 0, 2, 10, 20, 30⟩ true, .SetLogLevel () .INFO (ascii "up"), .Log (),
    .Push () none, .SetLogLevel () .ERROR (ascii "down"), .pop, .tag, .write]

omit [DecidableEq Θ] in
/-- Nothing is on its way: no thread logs, the queue is empty, and the writer has no message. -/
theorem not_onWay {s : Logger Θ} (hthreads : ∀ t, s.threads t = .idle)
    (hqueue : s.m_lckQue.m_queue = [])
    (hwriter : ∀ nowtm message, s.writer ≠ .tagging nowtm message) (message : LogMessage) :
    ¬ s.OnWay message := by
  rintro (⟨t, ht | ht⟩ | hm | ⟨nowtm, hw⟩)
  · rw [hthreads t] at ht
    cases ht
  · rw [hthreads t] at ht
    cases ht
  · rw [hqueue] at hm
    cases hm
  · exact hwriter nowtm message hw

theorem levels_right_oneByOne :
    ∃ s : Logger Unit, run step created oneByOne = some s ∧ (∀ line ∈ s.written, line.Right) ∧
      s.written.map Line.text =
        [ascii "10:20:30 => [info]up\n", ascii "10:20:31 => [error]down\n"] := by
  refine ⟨_, rfl, levels_right oneByOne _ rfl ?_, by decide⟩
  refine ⟨trivial, fun message hm => absurd hm ?_, trivial, trivial, trivial, trivial, trivial,
    trivial, fun message hm => absurd hm ?_, trivial, trivial, trivial, trivial, trivial, trivial,
    trivial⟩
  · exact not_onWay (fun _ => rfl) rfl (fun _ _ => Writer.noConfusion) message
  · exact not_onWay (fun _ => rfl) rfl (fun _ _ => Writer.noConfusion) message

theorem backToBack_wrong :
    ∃ s : Logger Unit, run step created backToBack = some s ∧
      s.written.map Line.text = [ascii "10:20:30 => [error]up\n"] ∧
      s.written.map (fun line => line.message.level) = [.INFO] ∧
      ¬ ∀ line ∈ s.written, line.Right := by
  refine ⟨_, rfl, by decide, rfl, by decide⟩

end Logger

end CppInOne.Mprpc
