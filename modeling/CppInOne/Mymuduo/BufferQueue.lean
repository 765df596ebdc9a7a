import CppInOne.Lib.Transition
import CppInOne.Mymuduo.Buffer

/-!
# The buffer as a FIFO byte queue

`Op` lists the public operations of `Buffer`. `Queue.exec` says what each of them is for:
bytes enter at the back, leave at the front, and a string handed out is what left.
The buffer refines this queue over runs of any length.
-/

namespace CppInOne.Mymuduo.BufferQueue
open Transition

inductive Op where
  | append (data : Bytes)
  | retrieve (len : Nat)
  | retrieveAll
  | retrieveAsString (len : Nat)
  | retrieveAllAsString
  | ensureWriteableBytes (len : Nat)
  | readFd (result : Readv)
  deriving DecidableEq, Repr

/-- What a call returns; `readFd` also reports what it stored to `*saveErrno`. -/
inductive Reply where
  | void
  | string (bytes : Bytes)
  | size (n : Int) (saveErrno : Option Errno)
  deriving DecidableEq, Repr

def exec (b : Buffer) : Op → Option (Buffer × Reply)
  | .append data => (b.append data).map fun b' => (b', .void)
  | .retrieve len => some (b.retrieve len, .void)
  | .retrieveAll => some (b.retrieveAll, .void)
  | .retrieveAsString len => (b.retrieveAsString len).map fun r => (r.1, .string r.2)
  | .retrieveAllAsString => b.retrieveAllAsString.map fun r => (r.1, .string r.2)
  | .ensureWriteableBytes len => (b.ensureWriteableBytes len).map fun b' => (b', .void)
  | .readFd result => (b.readFd result).map fun r => (r.1, .size r.2.1 r.2.2)

/-- What callers and the kernel promise: strings are asked for within the readable
bytes, and `::readv` stores no more than the iovecs hold. -/
def Allowed (b : Buffer) : Op → Prop
  | .retrieveAsString len => len ≤ b.readableBytes
  | .readFd (.stored bytes) => bytes.length ≤ b.iovTotal
  | _ => True

instance (b : Buffer) : ∀ op, Decidable (Allowed b op)
  | .retrieveAsString len => inferInstanceAs (Decidable (len ≤ b.readableBytes))
  | .readFd (.stored bytes) => inferInstanceAs (Decidable (bytes.length ≤ b.iovTotal))
  | .readFd (.failed _) | .append _ | .retrieve _ | .retrieveAll | .retrieveAllAsString
  | .ensureWriteableBytes _ => .isTrue trivial

/-- The abstract queue. -/
def Queue.exec (q : Bytes) : Op → Bytes × Reply
  | .append data => (q ++ data, .void)
  | .retrieve len => (q.drop len, .void)
  | .retrieveAll => ([], .void)
  | .retrieveAsString len => (q.drop len, .string (q.take len))
  | .retrieveAllAsString => ([], .string q)
  | .ensureWriteableBytes _ => (q, .void)
  | .readFd (.failed errno) => (q, .size (-1) (some errno))
  | .readFd (.stored bytes) => (q ++ bytes, .size bytes.length none)

/-- One operation refines one queue operation and keeps the index invariant. -/
theorem exec_refines {b : Buffer} (h : b.Valid) {op : Op} (ha : Allowed b op) :
    ∃ b', exec b op = some (b', (Queue.exec b.readable op).2) ∧ b'.Valid ∧
      b'.readable = (Queue.exec b.readable op).1 := by
  cases op with
  | append data =>
    obtain ⟨b', he, hv, hr⟩ := h.append data
    exact ⟨b', by rw [exec, he]; rfl, hv, hr⟩
  | retrieve len => exact ⟨b.retrieve len, rfl, h.retrieve len, h.readable_retrieve len⟩
  | retrieveAll => exact ⟨b.retrieveAll, rfl, h.retrieveAll, b.readable_retrieveAll⟩
  | retrieveAsString len =>
    exact ⟨b.retrieve len, by rw [exec, h.retrieveAsString_eq ha]; rfl, h.retrieve len,
      h.readable_retrieve len⟩
  | retrieveAllAsString =>
    have hall : b.readable.take b.readableBytes = b.readable := by
      rw [← h.readable_length, List.take_length]
    have hnone : b.readable.drop b.readableBytes = [] := by
      rw [← h.readable_length, List.drop_length]
    refine ⟨b.retrieve b.readableBytes, ?_, h.retrieve _, ?_⟩
    · rw [exec, Buffer.retrieveAllAsString, h.retrieveAsString_eq (Nat.le_refl _), hall]
      rfl
    · rw [h.readable_retrieve, hnone]
      rfl
  | ensureWriteableBytes len =>
    obtain ⟨b', he, hv, hr, _⟩ := h.ensureWriteableBytes len
    exact ⟨b', by rw [exec, he]; rfl, hv, hr⟩
  | readFd result =>
    cases result with
    | failed errno => exact ⟨b, rfl, h, rfl⟩
    | stored bytes =>
      obtain ⟨b', he, hv, hr⟩ := h.readFd ha
      exact ⟨b', by rw [exec, he]; rfl, hv, hr⟩

/-! ## Runs -/

/-- A buffer together with everything its calls have returned so far. -/
structure Session where
  buffer : Buffer
  replies : List Reply
  deriving DecidableEq, Repr

def start (initialSize : Nat) : Session := ⟨Buffer.create initialSize, []⟩

def step (s : Session) (op : Op) : Option Session :=
  (exec s.buffer op).map fun r => ⟨r.1, s.replies ++ [r.2]⟩

def Queue.step (q : Bytes × List Reply) (op : Op) : Bytes × List Reply :=
  ((Queue.exec q.1 op).1, q.2 ++ [(Queue.exec q.1 op).2])

/-- The refinement relation. -/
def Refines (s : Session) (q : Bytes × List Reply) : Prop :=
  s.buffer.Valid ∧ s.buffer.readable = q.1 ∧ s.replies = q.2

theorem step_refines (s : Session) (q : Bytes × List Reply) (op : Op) (h : Refines s q)
    (ha : Allowed s.buffer op) :
    ∃ s', step s op = some s' ∧ Refines s' (Queue.step q op) := by
  obtain ⟨hv, hr, hrep⟩ := h
  obtain ⟨b', he, hv', hr'⟩ := exec_refines hv ha
  refine ⟨⟨b', s.replies ++ [(Queue.exec s.buffer.readable op).2]⟩, by rw [step, he]; rfl,
    hv', ?_, ?_⟩
  · rw [hr', hr]
    rfl
  · simp only [Queue.step, hrep, hr]

/-! ## The calls of `makeSpace` -/

/-- The state and the argument with which `ensureWriteableBytes` enters `makeSpace`. -/
def ensureCall (b : Buffer) (len : Nat) : Option (Buffer × Nat) :=
  if b.writableBytes < len then some (b, len) else none

theorem ensureWriteableBytes_eq_call (b : Buffer) (len : Nat) :
    b.ensureWriteableBytes len =
      (ensureCall b len).elim (some b) fun call => call.1.makeSpace call.2 := by
  rw [Buffer.ensureWriteableBytes, ensureCall]
  split <;> rfl

/-- The state and the argument with which an operation enters `makeSpace`, if it does.
`readFd` gets there in the middle of the call, with no free byte left. -/
def makeSpaceCall (b : Buffer) : Op → Option (Buffer × Nat)
  | .append data => ensureCall b data.length
  | .ensureWriteableBytes len => ensureCall b len
  | .readFd (.stored bytes) =>
    if bytes.length < b.writableBytes then none
    else (b.fillWritable bytes).bind fun buffer =>
      ensureCall { b with buffer_ := buffer, writerIndex_ := buffer.length }
        (bytes.drop b.writableBytes).length
  | _ => none

/-- Every call of `makeSpace` happens on a well-formed buffer that lacks room. -/
theorem makeSpaceCall_valid {b b' : Buffer} {op : Op} {len : Nat} (h : b.Valid)
    (hcall : makeSpaceCall b op = some (b', len)) : b'.Valid ∧ b'.writableBytes < len := by
  have hens : ∀ {c : Buffer} {n : Nat}, c.Valid → ensureCall c n = some (b', len) →
      b'.Valid ∧ b'.writableBytes < len := by
    intro c n hc hcall
    rw [ensureCall] at hcall
    split at hcall
    · rename_i hshort
      cases hcall
      exact ⟨hc, hshort⟩
    · cases hcall
  cases op with
  | append data => exact hens h hcall
  | ensureWriteableBytes n => exact hens h hcall
  | readFd result =>
    cases result with
    | failed errno => cases hcall
    | stored bytes =>
      rw [makeSpaceCall] at hcall
      split at hcall
      · cases hcall
      · rename_i hfull
        obtain ⟨buffer, hfill, hvalid, _⟩ := h.fill (Nat.le_of_not_lt hfull)
        rw [hfill, Option.bind_some] at hcall
        exact hens hvalid hcall
  | _ => cases hcall

/-- **The buffer is a FIFO byte queue.** From a fresh buffer every allowed run goes
through without an access outside the array; afterwards the indices are in order, the
readable bytes and all replies are those of the queue, a failed read would change
nothing, and any further call that enters the move branch of `makeSpace` copies strictly
downwards and gains the requested room. -/
theorem buffer_refines_queue (initialSize : Nat) (ops : List Op)
    (h : Guarded step (fun s op => Allowed s.buffer op) (start initialSize) ops) :
    ∃ s, run step (start initialSize) ops = some s ∧
      8 ≤ s.buffer.readerIndex_ ∧ s.buffer.readerIndex_ ≤ s.buffer.writerIndex_ ∧
      s.buffer.writerIndex_ ≤ s.buffer.buffer_.length ∧
      (s.buffer.readable, s.replies) = ops.foldl Queue.step ([], []) ∧
      (∀ errno, exec s.buffer (.readFd (.failed errno)) =
        some (s.buffer, .size (-1) (some errno))) ∧
      ∀ op b len, Allowed s.buffer op → makeSpaceCall s.buffer op = some (b, len) →
        ¬ b.mustResize len →
        kCheapPrepend < b.readerIndex_ ∧
          ∃ b', b.makeSpace len = some b' ∧ len ≤ b'.writableBytes := by
  have hstart : Refines (start initialSize) ([], []) :=
    ⟨Buffer.create_valid initialSize, Buffer.readable_create initialSize, rfl⟩
  obtain ⟨s, hrun, hv, hr, hrep⟩ := run_refines step_refines hstart h
  refine ⟨s, hrun, hv.prepend, hv.ordered, hv.bounded, ?_, fun errno => rfl, ?_⟩
  · rw [hr, hrep]
  · intro op b len _ hcall hmove
    obtain ⟨hb, hshort⟩ := makeSpaceCall_valid hv hcall
    obtain ⟨b', he, _, _, hroom⟩ := hb.makeSpace hshort
    exact ⟨Buffer.prepend_lt_of_not_mustResize hshort hmove, b', he, hroom⟩

/-- A run in which `append` first resizes the array and later compacts it. -/
def compactingRun : List Op :=
  [.append [1, 2, 3, 4], .retrieveAsString 3, .readFd (.stored [5, 6]), .retrieve 1,
    .append [7, 8], .readFd (.failed .EWOULDBLOCK), .retrieveAllAsString]

theorem buffer_refines_queue_compacting :
    ∃ s, run step (start 2) compactingRun = some s ∧
      (s.buffer.readable, s.replies) = compactingRun.foldl Queue.step ([], []) := by
  obtain ⟨s, hrun, _, _, _, hqueue, _⟩ := buffer_refines_queue 2 compactingRun (by decide)
  exact ⟨s, hrun, hqueue⟩

end CppInOne.Mymuduo.BufferQueue
