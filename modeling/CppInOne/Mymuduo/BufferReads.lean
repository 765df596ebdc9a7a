import Mathlib.Algebra.Group.Nat.Defs
import CppInOne.Lib.Transition
import CppInOne.Mymuduo.Buffer

/-!
# Reading from a buffer

`retrieveAsString` copies `len` bytes from `peek()` on, and leaves it to `retrieve` to cut an
over-long request down to what is readable. This file says exactly in which runs every string
that is handed out is what leaves the buffer.

The string and the array of the buffer throw if they would be too long or if there is no memory for
them: the string before it reads a byte, the array before anything is moved.
-/

namespace CppInOne.Mymuduo.BufferReads
open Transition

/-- `memory` says whether the call finds memory for its string or for a larger array. -/
inductive Op where
  | append (data : Bytes) (memory : Bool)
  | retrieve (len : Nat)
  | retrieveAsString (len : Nat) (memory : Bool)
  deriving DecidableEq, Repr

/-- `std::string::max_size()` -/
def max_size : Nat := 2 ^ 63 - 1

/-- `std::string(peek(), len)` throws `length_error` or `bad_alloc`. -/
def StringThrows (len : Nat) (memory : Bool) : Prop := max_size < len ∨ memory = false

instance (len : Nat) (memory : Bool) : Decidable (StringThrows len memory) :=
  inferInstanceAs (Decidable (_ ∨ _))

/-- How `retrieveAsString` ends, and the buffer that it leaves. -/
inductive Outcome where
  | returned (b : Buffer) (result : Bytes)
  | thrown (b : Buffer)
  deriving DecidableEq, Repr

/-- `none` is an access outside the array. -/
def retrieveAsString (b : Buffer) (len : Nat) (memory : Bool) : Option Outcome :=
  if StringThrows len memory then some (.thrown b)
  else (b.retrieveAsString len).map fun r => .returned r.1 r.2

/-- `append`, with `false` where it needs a larger array and `resize` throws. -/
def append (b : Buffer) (data : Bytes) (memory : Bool) : Option (Buffer × Bool) :=
  if b.writableBytes < data.length ∧ b.mustResize data.length ∧ memory = false then some (b, false)
  else (b.append data).map fun b => (b, true)

/-- A buffer, with all that has been appended to it and all that has been returned or skipped. -/
structure Session where
  buffer : Buffer
  appended : Bytes
  removed : Bytes
  deriving DecidableEq, Repr

def start (initialSize : Nat) : Session := ⟨Buffer.create initialSize, [], []⟩

def step (s : Session) : Op → Option Session
  | .append data memory =>
    (append s.buffer data memory).map fun r =>
      { s with buffer := r.1, appended := if r.2 then s.appended ++ data else s.appended }
  | .retrieve len =>
    some { s with
      buffer := s.buffer.retrieve len
      removed := s.removed ++ s.buffer.readable.take len }
  | .retrieveAsString len memory =>
    (retrieveAsString s.buffer len memory).map fun
      | .returned b result => { s with buffer := b, removed := s.removed ++ result }
      | .thrown b => { s with buffer := b }

/-- A returned string is what the call removes from the front of the readable bytes, and the
bytes that were read are readable ones. A call that throws has read and removed nothing. -/
def Returns (b : Buffer) : Op → Prop
  | .retrieveAsString len memory =>
    (∃ b' result, retrieveAsString b len memory = some (.returned b' result) ∧
      result ++ b'.readable = b.readable ∧ b.readerIndex_ + len ≤ b.writerIndex_) ∨
    retrieveAsString b len memory = some (.thrown b)
  | _ => True

/-- The call stays within the array and returns what it removes, and what has been returned or
skipped stays a prefix of what has been appended. -/
def ReadsContents (s : Session) (op : Op) : Prop :=
  Returns s.buffer op ∧ ∃ s', step s op = some s' ∧ s'.removed <+: s'.appended

/-- The condition on a step: a string is asked for within the readable bytes, or cannot be
built. -/
def AsksForReadable (s : Session) : Op → Prop
  | .retrieveAsString len memory => len ≤ s.buffer.readableBytes ∨ StringThrows len memory
  | _ => True

instance (s : Session) : ∀ op, Decidable (AsksForReadable s op)
  | .retrieveAsString _ _ => inferInstanceAs (Decidable (_ ∨ _))
  | .append _ _ => .isTrue trivial
  | .retrieve _ => .isTrue trivial

/-- The invariant: the readable bytes are what has been appended and not yet removed. -/
structure Inv (s : Session) : Prop where
  valid : s.buffer.Valid
  stream : s.removed ++ s.buffer.readable = s.appended

theorem inv_start (initialSize : Nat) : Inv (start initialSize) :=
  ⟨Buffer.create_valid initialSize, Buffer.readable_create initialSize⟩

theorem Inv.removed_prefix {s : Session} (h : Inv s) : s.removed <+: s.appended :=
  ⟨s.buffer.readable, h.stream⟩

theorem retrieveAsString_of_throws {b : Buffer} {len : Nat} {memory : Bool}
    (h : StringThrows len memory) : retrieveAsString b len memory = some (.thrown b) := if_pos h

/-- A request for readable bytes returns the front of them. -/
theorem retrieveAsString_eq {b : Buffer} (h : b.Valid) {len : Nat} {memory : Bool}
    (hthrows : ¬ StringThrows len memory) (hlen : len ≤ b.readableBytes) :
    retrieveAsString b len memory = some (.returned (b.retrieve len) (b.readable.take len)) := by
  rw [retrieveAsString, if_neg hthrows, h.retrieveAsString_eq hlen]
  rfl

theorem Inv.append {s : Session} (h : Inv s) (data : Bytes) (memory : Bool) :
    ∃ s', step s (.append data memory) = some s' ∧ Inv s' := by
  by_cases hthrows :
      s.buffer.writableBytes < data.length ∧ s.buffer.mustResize data.length ∧ memory = false
  · refine ⟨s, ?_, h⟩
    rw [step, BufferReads.append, if_pos hthrows]
    rfl
  · obtain ⟨b, happ, hvalid, hread⟩ := h.valid.append data
    refine ⟨_, by rw [step, BufferReads.append, if_neg hthrows, happ]; rfl, hvalid, ?_⟩
    rw [hread, ← List.append_assoc, h.stream]
    rfl

/-- **Step lemma**: a call within the condition is defined and keeps the invariant. -/
theorem Inv.step {s : Session} {op : Op} (h : Inv s) (hop : AsksForReadable s op) :
    ∃ s', step s op = some s' ∧ Inv s' := by
  cases op with
  | append data memory => exact h.append data memory
  | retrieve len =>
    refine ⟨_, rfl, h.valid.retrieve len, ?_⟩
    rw [h.valid.readable_retrieve, List.append_assoc, List.take_append_drop]
    exact h.stream
  | retrieveAsString len memory =>
    by_cases hthrows : StringThrows len memory
    · -- the exception leaves the buffer as it was
      exact ⟨s, by rw [BufferReads.step, retrieveAsString_of_throws hthrows]; rfl, h⟩
    · have hlen := hop.resolve_right hthrows
      refine ⟨_, by rw [BufferReads.step, retrieveAsString_eq h.valid hthrows hlen]; rfl,
        h.valid.retrieve len, ?_⟩
      rw [h.valid.readable_retrieve, List.append_assoc, List.take_append_drop]
      exact h.stream

/-- A string that is too long is not what the call removes: `retrieve` stops at `writerIndex_`. -/
theorem not_removed_of_overlong {b b' : Buffer} (h : b.Valid) {len : Nat} {result : Bytes}
    (hlen : b.readableBytes < len) (hcall : b.retrieveAsString len = some (b', result)) :
    result ++ b'.readable ≠ b.readable := by
  intro heq
  rw [Buffer.retrieveAsString, Option.map_eq_some_iff] at hcall
  obtain ⟨result', hpeek, hpair⟩ := hcall
  obtain ⟨-, rfl⟩ := Prod.mk.inj hpair
  rw [Buffer.peek, Option.ite_none_right_eq_some] at hpeek
  obtain ⟨hbound, hbytes⟩ := hpeek
  have hlength := congrArg List.length heq
  rw [List.length_append, h.readable_length, ← Option.some.inj hbytes, List.length_take,
    List.length_drop] at hlength
  omega

/-- What a call returns is what it removes exactly when the request is within the readable
bytes, or cannot be met at all. -/
theorem Inv.returns_iff {s : Session} (h : Inv s) (op : Op) :
    Returns s.buffer op ↔ AsksForReadable s op := by
  cases op with
  | append _ _ | retrieve _ => exact Iff.rfl
  | retrieveAsString len memory =>
    have hordered := h.valid.ordered
    by_cases hthrows : StringThrows len memory
    · exact iff_of_true (Or.inr (retrieveAsString_of_throws hthrows)) (Or.inr hthrows)
    · constructor
      · rintro (⟨b', result, hcall, heq, -⟩ | hthrown)
        · refine Or.inl (Nat.le_of_not_lt fun hlen => ?_)
          rw [retrieveAsString, if_neg hthrows, Option.map_eq_some_iff] at hcall
          obtain ⟨⟨c, r⟩, hcall, hpair⟩ := hcall
          obtain ⟨rfl, rfl⟩ := Outcome.returned.inj hpair
          exact not_removed_of_overlong h.valid hlen hcall heq
        · rw [retrieveAsString, if_neg hthrows, Option.map_eq_some_iff] at hthrown
          obtain ⟨r, -, hreturned⟩ := hthrown
          cases hreturned
      · intro hop
        have hlen := hop.resolve_right hthrows
        refine Or.inl ⟨_, _, retrieveAsString_eq h.valid hthrows hlen, ?_, ?_⟩
        · rw [h.valid.readable_retrieve, List.take_append_drop]
        · rw [Buffer.readableBytes] at hlen
          omega

theorem Inv.readsContents_iff {s : Session} (h : Inv s) (op : Op) :
    ReadsContents s op ↔ AsksForReadable s op := by
  rw [ReadsContents, h.returns_iff op]
  refine and_iff_left_of_imp fun hop => ?_
  obtain ⟨s', hs', hinv⟩ := h.step hop
  exact ⟨s', hs', hinv.removed_prefix⟩

/-- **Reads return what was in the buffer**, in every call of a run, if and only if every string
is asked for within the readable bytes, or cannot be built. -/
theorem reads_contents_iff (initialSize : Nat) (ops : List Op) :
    Guarded step ReadsContents (start initialSize) ops ↔
      Guarded step AsksForReadable (start initialSize) ops := by
  refine guarded_congr_of_forall_mem (I := Inv) (P := fun _ => True)
    (fun s op h _ => h.readsContents_iff op) (fun s op s' h _ hop hs' => ?_)
    (inv_start initialSize) fun _ _ => trivial
  obtain ⟨t, ht, hinv⟩ := h.step hop
  rw [ht] at hs'
  cases hs'
  exact hinv

/-- Bytes that have left the buffer are handed out again. -/
theorem stale_bytes_returned :
    ∃ s, run step (start 4)
        [.append [1, 2, 3, 4] true, .retrieveAsString 4 true, .retrieveAsString 3 true] =
        some s ∧ s.appended = [1, 2, 3, 4] ∧ s.removed = [1, 2, 3, 4, 1, 2, 3] ∧
      ¬ Guarded step ReadsContents (start 4)
        [.append [1, 2, 3, 4] true, .retrieveAsString 4 true, .retrieveAsString 3 true] := by
  have hrun : run step (start 4)
      [.append [1, 2, 3, 4] true, .retrieveAsString 4 true, .retrieveAsString 3 true] =
        some _ := rfl
  refine ⟨_, hrun, rfl, rfl, ?_⟩
  show ¬ Guarded step ReadsContents (start 4)
    ([.append [1, 2, 3, 4] true, .retrieveAsString 4 true] ++ [.retrieveAsString 3 true])
  refine not_guarded_concat rfl fun hreads => ?_
  obtain ⟨-, s', hs', hprefix⟩ := hreads
  cases hs'
  revert hprefix
  decide

end CppInOne.Mymuduo.BufferReads
