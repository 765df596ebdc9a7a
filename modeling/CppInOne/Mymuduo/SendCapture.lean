import CppInOne.Lib.Transition
import CppInOne.Mymuduo.TcpConnection

/-!
# What `send` captures

`send` of another thread binds `buf.c_str()` and `buf.size()` into the functor that it queues. The
loop thread reads the bytes only when the functor runs, from whatever the string of the caller
holds by then. This file says which assignments to the string are harmless.

## Main results

- `hands_over_contents` — every functor hands over the bytes of its `send`, if no assignment
  changes bytes that a queued functor still has to read
- `assignment_loses_bytes` — every other assignment can be followed by a functor that does not
-/

namespace CppInOne.Mymuduo.SendCapture
open Transition TcpConnection

/-- What `sendInLoop` was bound to, beside the address of the string, and what the string held
when `send` was called. -/
structure Captured where
  len : Nat
  contents : Bytes
  deriving DecidableEq, Repr

/-- A connection, the functors that `send` has queued, and the string of the caller. -/
structure State where
  buf : Bytes
  conn : TcpConnection
  queue : List Captured

inductive Action where
  /-- The caller assigns to its string. -/
  | assign (contents : Bytes)
  | send
  /-- The loop runs the first functor; `beyond` is the memory behind the characters of the
  string. -/
  | sendInLoop (beyond : Bytes) (result : WriteResult)
  | handleWrite (result : WriteResult)
  | handleClose (acts : List UserAct)
  deriving DecidableEq, Repr

/-- The `len` bytes from `c_str()` on. -/
def readString (buf beyond : Bytes) (len : Nat) : Option Bytes :=
  if len ≤ (buf ++ beyond).length then some ((buf ++ beyond).take len) else none

def step (s : State) : Action → Option State
  | .assign contents => some { s with buf := contents }
  | .send =>
    some (if s.conn.state_ = .kConnected then
        { s with queue := s.queue ++ [⟨s.buf.length, s.buf⟩] }
      else s)
  | .sendInLoop beyond result =>
    match s.queue with
    | [] => none
    | f :: rest =>
      (readString s.buf beyond f.len).map fun data =>
        { s with conn := s.conn.sendInLoop data result, queue := rest }
  | .handleWrite result => some { s with conn := s.conn.handleWrite result }
  | .handleClose acts => some { s with conn := s.conn.handleClose acts }

def start (buf : Bytes) (this : Ptr) (sockfd : Int) (writeComplete highWater : Bool) : State where
  buf := buf
  conn := established this sockfd writeComplete highWater
  queue := []

/-- `sendInLoop` gets the bytes that the string held when `send` was called. -/
def HandsOver (s : State) : Action → Prop
  | .sendInLoop beyond _ => ∀ f rest data, s.queue = f :: rest →
      readString s.buf beyond f.len = some data → data = f.contents
  | _ => True

/-- The condition on a step: an assignment keeps the bytes of every `send` whose functor is still
queued at the front of the string. -/
def KeepsCaptured (s : State) : Action → Prop
  | .assign contents => ∀ f ∈ s.queue, f.contents <+: contents
  | _ => True

instance (s : State) : ∀ a, Decidable (KeepsCaptured s a)
  | .assign _ => inferInstanceAs (Decidable (∀ f ∈ _, _ <+: _))
  | .send | .sendInLoop _ _ | .handleWrite _ | .handleClose _ => .isTrue trivial

/-- The lengths in the queue are those of the strings. -/
def Sized (s : State) : Prop := ∀ f ∈ s.queue, f.len = f.contents.length

theorem sized_step {s s' : State} {a : Action} (h : Sized s) (hs : step s a = some s') :
    Sized s' := by
  cases a with
  | assign contents =>
    cases hs
    exact h
  | send =>
    cases hs
    split
    · intro f hf
      obtain hf | hf := List.mem_append.mp hf
      · exact h f hf
      · rw [List.mem_singleton.mp hf]
    · exact h
  | sendInLoop beyond result =>
    simp only [step] at hs
    split at hs
    · cases hs
    · rename_i f rest hqueue
      obtain ⟨data, -, rfl⟩ := Option.map_eq_some_iff.mp hs
      exact fun g hg => h g (hqueue ▸ List.mem_cons_of_mem f hg)
  | handleWrite result | handleClose acts =>
    cases hs
    exact h

/-- The invariant: the string still holds the bytes of the queued functors. -/
structure Inv (s : State) : Prop where
  sized : Sized s
  kept : ∀ f ∈ s.queue, f.contents <+: s.buf

theorem readString_of_prefix {buf beyond contents data : Bytes} (h : contents <+: buf)
    (hread : readString buf beyond contents.length = some data) : data = contents := by
  obtain ⟨-, hdata⟩ := Option.ite_none_right_eq_some.mp hread
  rw [← Option.some.inj hdata]
  exact (List.prefix_iff_eq_take.mp (h.trans (List.prefix_append buf beyond))).symm

theorem Inv.step {s s' : State} {a : Action} (h : Inv s) (hkeeps : KeepsCaptured s a)
    (hs : step s a = some s') : Inv s' := by
  refine ⟨sized_step h.sized hs, fun g hg => ?_⟩
  cases a with
  | assign contents =>
    cases hs
    exact hkeeps g hg
  | send =>
    cases hs
    split at hg
    · rename_i hconnected
      -- the new functor finds the string as it is now
      rw [if_pos hconnected]
      obtain hg | hg := List.mem_append.mp hg
      · exact h.kept g hg
      · rw [List.mem_singleton.mp hg]
    · rename_i hclosed
      rw [if_neg hclosed]
      exact h.kept g hg
  | sendInLoop beyond result =>
    simp only [SendCapture.step] at hs
    split at hs
    · cases hs
    · rename_i f rest hqueue
      obtain ⟨data, -, rfl⟩ := Option.map_eq_some_iff.mp hs
      exact h.kept g (hqueue ▸ List.mem_cons_of_mem f hg)
  | handleWrite result | handleClose acts =>
    cases hs
    exact h.kept g hg

theorem Inv.handsOver {s : State} (h : Inv s) (a : Action) : HandsOver s a := by
  cases a with
  | sendInLoop beyond result =>
    intro f rest data hqueue hread
    have hf : f ∈ s.queue := hqueue ▸ List.mem_cons_self
    rw [h.sized f hf] at hread
    exact readString_of_prefix (h.kept f hf) hread
  | _ => trivial

/-- **`send` transmits the bytes it was given**, in every run whose assignments keep the bytes of
the functors that are still queued. -/
theorem hands_over_contents (buf : Bytes) (this : Ptr) (sockfd : Int)
    (writeComplete highWater : Bool) (as : List Action)
    (hkeeps : Guarded step KeepsCaptured (start buf this sockfd writeComplete highWater) as) :
    Guarded step HandsOver (start buf this sockfd writeComplete highWater) as := by
  have hinv : Inv (start buf this sockfd writeComplete highWater) :=
    ⟨fun _ hf => absurd hf List.not_mem_nil, fun _ hf => absurd hf List.not_mem_nil⟩
  exact guarded_imp (fun _ a h _ => h.handsOver a) (fun _ _ _ h hkeep hs => h.step hkeep hs) hinv
    hkeeps

/-! ## Assignments that lose bytes -/

/-- A string without the captured bytes at its front can be read as other bytes. -/
theorem exists_other_read {buf contents : Bytes} (h : ¬ contents <+: buf) :
    ∃ beyond data, readString buf beyond contents.length = some data ∧ data ≠ contents := by
  -- behind a string that has become too short, no byte is the one that was there
  refine ⟨(contents.drop buf.length).map (· + 1), _, if_pos ?_, fun heq => ?_⟩
  · rw [List.length_append, List.length_map, List.length_drop]
    omega
  · by_cases hlong : contents.length ≤ buf.length
    · rw [List.take_append_of_le_length hlong] at heq
      exact h (List.prefix_iff_eq_take.mpr heq.symm)
    · have hdrop := congrArg (List.drop buf.length) heq
      rw [List.drop_take, List.drop_append, List.drop_length, List.nil_append, Nat.sub_self,
        List.drop_zero, List.take_of_length_le (by simp)] at hdrop
      obtain ⟨b, rest, hcons⟩ := List.exists_cons_of_length_pos
        (show 0 < (contents.drop buf.length).length by rw [List.length_drop]; omega)
      rw [hcons, List.map_cons] at hdrop
      have hb := (List.cons.inj hdrop).1
      simp at hb

/-- The functors in front of a captured string that has changed can run, and then it is read. -/
theorem exists_not_handsOver {s : State} (hsized : Sized s) {f : Captured} (hf : f ∈ s.queue)
    (hlost : ¬ f.contents <+: s.buf) : ∃ bs, ¬ Guarded step HandsOver s bs := by
  obtain ⟨buf, conn, queue⟩ := s
  induction queue generalizing conn with
  | nil => exact absurd hf List.not_mem_nil
  | cons first rest ih =>
    have hlen : first.len = first.contents.length := hsized first List.mem_cons_self
    by_cases hfirst : first.contents <+: buf
    · -- the first functor takes its own bytes, and the string stays as it is
      have hmem : f ∈ rest := by
        obtain rfl | hmem := List.mem_cons.mp hf
        · exact absurd hfirst hlost
        · exact hmem
      have hread : readString buf [] first.len = some (buf.take first.len) := by
        rw [readString, List.append_nil, if_pos (hlen ▸ hfirst.length_le)]
      have hstep : step ⟨buf, conn, first :: rest⟩ (.sendInLoop [] (.wrote 0)) =
          some ⟨buf, conn.sendInLoop (buf.take first.len) (.wrote 0), rest⟩ := by
        simp only [step, hread, Option.map_some]
      obtain ⟨bs, hbs⟩ := ih (conn.sendInLoop (buf.take first.len) (.wrote 0))
        (fun g hg => hsized g (List.mem_cons_of_mem first hg)) hmem hlost
      exact ⟨.sendInLoop [] (.wrote 0) :: bs, fun h => hbs ((guarded_cons.mp h).2 _ hstep)⟩
    · obtain ⟨beyond, data, hread, hne⟩ := exists_other_read hfirst
      refine ⟨[.sendInLoop beyond (.wrote 0)], fun h => hne ?_⟩
      exact h.1 first rest data rfl (hlen ▸ hread)

/-- The condition is exact: after an assignment that changes captured bytes some functor can read
other bytes than those of its `send`. -/
theorem assignment_loses_bytes {buf : Bytes} {this : Ptr} {sockfd : Int}
    {writeComplete highWater : Bool} {as : List Action} {s : State}
    (hrun : run step (start buf this sockfd writeComplete highWater) as = some s)
    {contents : Bytes} (hlost : ¬ KeepsCaptured s (.assign contents)) :
    ∃ bs, ¬ Guarded step HandsOver s (.assign contents :: bs) := by
  have hsized : Sized s := reachable_invariant (fun _ _ _ h hs => sized_step h hs)
    (fun _ hf => absurd hf List.not_mem_nil) ⟨as, hrun⟩
  simp only [KeepsCaptured, not_forall] at hlost
  obtain ⟨f, hf, hlost⟩ := hlost
  obtain ⟨bs, hbs⟩ := exists_not_handsOver (s := { s with buf := contents }) hsized hf hlost
  exact ⟨bs, fun h => hbs ((guarded_cons.mp h).2 _ rfl)⟩

/-- Two sends from one string that only grows while they are queued. -/
def growing : List Action :=
  [.send, .assign [1, 2, 3], .send, .sendInLoop [0] (.wrote 2), .sendInLoop [0] (.wrote 1),
    .assign [9], .handleWrite (.wrote 2)]

theorem hands_over_contents_growing :
    ∃ s, run step (start [1, 2] 7 7 true true) growing = some s ∧
      Guarded step HandsOver (start [1, 2] 7 7 true true) growing := by
  have hsome : (run step (start [1, 2] 7 7 true true) growing).isSome = true := by
    decide +kernel
  obtain ⟨s, hs⟩ := Option.isSome_iff_exists.mp hsome
  exact ⟨s, hs, hands_over_contents [1, 2] 7 7 true true growing (by decide +kernel)⟩

/-- The caller reuses its string before the loop has run the functor. -/
def reused : List Action := [.send, .assign [8, 9], .sendInLoop [0] (.wrote 2)]

/-- The bytes of the second message are written in place of those that were sent. -/
theorem reused_not_handed_over :
    (run step (start [1, 2] 7 7 false false) reused).map (·.conn.trace) =
        some [.epollCtl .ADD 7 true, .connectionCallback true, .write [8, 9] (.wrote 2)] ∧
      ¬ Guarded step HandsOver (start [1, 2] 7 7 false false) reused := by
  refine ⟨by decide +kernel, ?_⟩
  show ¬ Guarded step HandsOver (start [1, 2] 7 7 false false)
    ([.send, .assign [8, 9]] ++ [.sendInLoop [0] (.wrote 2)])
  refine not_guarded_concat rfl fun hhands => ?_
  exact absurd (hhands ⟨2, [1, 2]⟩ [] [8, 9] rfl rfl) (by decide)

end CppInOne.Mymuduo.SendCapture
