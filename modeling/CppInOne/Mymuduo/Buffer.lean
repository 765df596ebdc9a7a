import CppInOne.Lib.ArrayCopy

/-!
# The network buffer

`Buffer` keeps a byte array with two indices. The bytes in
`[readerIndex_, writerIndex_)` are readable, those from `writerIndex_` on are free, and
the first `kCheapPrepend` bytes are never used for payload. Every function that touches
memory returns an `Option`: `none` is an access outside the array.

Indices and lengths are natural numbers, so the statements speak about runs in which no
`size_t` computation overflows; `resize` always finds memory.
-/

namespace CppInOne.Mymuduo
open ArrayCopy

abbrev Bytes := List UInt8

/-- The values of `errno` that the library tells apart. -/
inductive Errno where
  | EWOULDBLOCK
  | EPIPE
  | ECONNRESET
  | other (code : Nat)
  deriving DecidableEq, Repr

/-- Result of `::readv`: `-1` with `errno`, or all the bytes it stored, in order. -/
inductive Readv where
  | failed (errno : Errno)
  | stored (bytes : Bytes)
  deriving DecidableEq, Repr

/-- Result of `::write`: `-1` with `errno`, or the number of bytes accepted. -/
inductive WriteResult where
  | failed (errno : Errno)
  | wrote (n : Nat)
  deriving DecidableEq, Repr

/-- The number of bytes the kernel took over. -/
def WriteResult.accepted : WriteResult → Nat
  | .failed _ => 0
  | .wrote n => n

@[simp] theorem WriteResult.accepted_failed (errno : Errno) : (failed errno).accepted = 0 := rfl

@[simp] theorem WriteResult.accepted_wrote (n : Nat) : (wrote n).accepted = n := rfl

def kCheapPrepend : Nat := 8
def kInitialSize : Nat := 1024

/-- `sizeof extrabuf`, the stack array of `readFd`. -/
def sizeofExtrabuf : Nat := 65536

structure Buffer where
  buffer_ : Bytes
  readerIndex_ : Nat
  writerIndex_ : Nat
  deriving DecidableEq, Repr

namespace Buffer

/-- The constructor; its argument defaults to `kInitialSize`. -/
def create (initialSize : Nat) : Buffer where
  buffer_ := List.replicate (kCheapPrepend + initialSize) 0
  readerIndex_ := kCheapPrepend
  writerIndex_ := kCheapPrepend

def readableBytes (b : Buffer) : Nat := b.writerIndex_ - b.readerIndex_

def writableBytes (b : Buffer) : Nat := b.buffer_.length - b.writerIndex_

def prependableBytes (b : Buffer) : Nat := b.readerIndex_

/-- The `len` bytes that start at `peek()`. -/
def peek (b : Buffer) (len : Nat) : Option Bytes :=
  if b.readerIndex_ + len ≤ b.buffer_.length then some ((b.buffer_.drop b.readerIndex_).take len)
  else none

def retrieveAll (b : Buffer) : Buffer :=
  { b with readerIndex_ := kCheapPrepend, writerIndex_ := kCheapPrepend }

def retrieve (b : Buffer) (len : Nat) : Buffer :=
  if len < b.readableBytes then { b with readerIndex_ := b.readerIndex_ + len }
  else b.retrieveAll

def retrieveAsString (b : Buffer) (len : Nat) : Option (Buffer × Bytes) :=
  (b.peek len).map fun result => (b.retrieve len, result)

def retrieveAllAsString (b : Buffer) : Option (Buffer × Bytes) :=
  b.retrieveAsString b.readableBytes

/-- The test of `makeSpace`: the free bytes on both sides do not suffice. -/
def mustResize (b : Buffer) (len : Nat) : Prop :=
  b.writableBytes + b.prependableBytes < len + kCheapPrepend

instance (b : Buffer) (len : Nat) : Decidable (b.mustResize len) := Nat.decLt _ _

/-- `std::vector::resize`, new elements being zero. -/
def resize (buffer : Bytes) (n : Nat) : Bytes :=
  buffer.take n ++ List.replicate (n - buffer.length) 0

def makeSpace (b : Buffer) (len : Nat) : Option Buffer :=
  if b.mustResize len then some { b with buffer_ := resize b.buffer_ (b.writerIndex_ + len) }
  else
    (copyWithin b.buffer_ b.readerIndex_ kCheapPrepend b.readableBytes).map fun buffer =>
      { buffer_ := buffer
        readerIndex_ := kCheapPrepend
        writerIndex_ := kCheapPrepend + b.readableBytes }

def ensureWriteableBytes (b : Buffer) (len : Nat) : Option Buffer :=
  if b.writableBytes < len then b.makeSpace len else some b

def append (b : Buffer) (data : Bytes) : Option Buffer :=
  (b.ensureWriteableBytes data.length).bind fun b =>
    (copyIn b.buffer_ b.writerIndex_ data).map fun buffer =>
      { b with buffer_ := buffer, writerIndex_ := b.writerIndex_ + data.length }

/-- Total length of the iovecs that `readFd` passes: `extrabuf` is offered only when the
array has less room than it. -/
def iovTotal (b : Buffer) : Nat :=
  if b.writableBytes < sizeofExtrabuf then b.writableBytes + sizeofExtrabuf
  else b.writableBytes

/-- The array after `::readv` has stored its first bytes in iovec 0, the free space. -/
def fillWritable (b : Buffer) (bytes : Bytes) : Option Bytes :=
  copyIn b.buffer_ b.writerIndex_ (bytes.take b.writableBytes)

/-- `readFd` returns the result of `::readv` and what it stored to `*saveErrno`. -/
def readFd (b : Buffer) : Readv → Option (Buffer × Int × Option Errno)
  | .failed errno => some (b, -1, some errno)
  | .stored bytes =>
    (b.fillWritable bytes).bind fun buffer =>
      if bytes.length < b.writableBytes then
        some ({ b with buffer_ := buffer, writerIndex_ := b.writerIndex_ + bytes.length },
          bytes.length, none)
      -- the array is full, the rest of the data sits in `extrabuf`
      else if bytes.length - b.writableBytes ≤ sizeofExtrabuf then
        (append { b with buffer_ := buffer, writerIndex_ := buffer.length }
          (bytes.drop b.writableBytes)).map fun b' => (b', bytes.length, none)
      else none

/-- `writeFd` hands the readable bytes to `::write`. -/
def writeFd (b : Buffer) (result : WriteResult) : Option (Bytes × WriteResult) :=
  (b.peek b.readableBytes).map fun offered => (offered, result)

/-! ## Well-formed buffers -/

/-- The index invariant. -/
structure Valid (b : Buffer) : Prop where
  prepend : kCheapPrepend ≤ b.readerIndex_
  ordered : b.readerIndex_ ≤ b.writerIndex_
  bounded : b.writerIndex_ ≤ b.buffer_.length

/-- The readable bytes. -/
def readable (b : Buffer) : Bytes := window b.buffer_ b.readerIndex_ b.writerIndex_

theorem create_valid (initialSize : Nat) : (create initialSize).Valid where
  prepend := Nat.le_refl _
  ordered := Nat.le_refl _
  bounded := by simp [create]

theorem readable_create (initialSize : Nat) : (create initialSize).readable = [] :=
  window_self _ _

theorem Valid.readable_length {b : Buffer} (h : b.Valid) :
    b.readable.length = b.readableBytes :=
  window_length h.bounded

/-- A request within the readable bytes reads exactly the front of them. -/
theorem Valid.peek_eq {b : Buffer} (h : b.Valid) {len : Nat} (hlen : len ≤ b.readableBytes) :
    b.peek len = some (b.readable.take len) := by
  have hord := h.ordered
  have hbound := h.bounded
  rw [readableBytes] at hlen
  rw [peek, if_pos (by omega), readable, window_take (by omega)]

theorem Valid.retrieveAll {b : Buffer} (h : b.Valid) : b.retrieveAll.Valid where
  prepend := Nat.le_refl _
  ordered := Nat.le_refl _
  bounded := Nat.le_trans h.prepend (Nat.le_trans h.ordered h.bounded)

theorem readable_retrieveAll (b : Buffer) : b.retrieveAll.readable = [] := window_self _ _

theorem Valid.retrieve {b : Buffer} (h : b.Valid) (len : Nat) : (b.retrieve len).Valid := by
  rw [Buffer.retrieve]
  split
  · rename_i hlt
    have hord := h.ordered
    have hpre := h.prepend
    rw [readableBytes] at hlt
    exact ⟨by simp only; omega, by simp only; omega, h.bounded⟩
  · exact h.retrieveAll

/-- Retrieving drops from the front; asking for at least everything empties the buffer. -/
theorem Valid.readable_retrieve {b : Buffer} (h : b.Valid) (len : Nat) :
    (b.retrieve len).readable = b.readable.drop len := by
  rw [Buffer.retrieve]
  split
  · exact (window_drop _ _ _ _).symm
  · rename_i hge
    rw [readable_retrieveAll, List.drop_eq_nil_of_le]
    rw [h.readable_length]
    omega

theorem Valid.retrieveAsString_eq {b : Buffer} (h : b.Valid) {len : Nat}
    (hlen : len ≤ b.readableBytes) :
    b.retrieveAsString len = some (b.retrieve len, b.readable.take len) := by
  rw [retrieveAsString, h.peek_eq hlen]
  rfl

/-- In the move branch the data really moves, downwards. -/
theorem prepend_lt_of_not_mustResize {b : Buffer} {len : Nat} (hshort : b.writableBytes < len)
    (hmove : ¬ b.mustResize len) : kCheapPrepend < b.readerIndex_ := by
  rw [mustResize, prependableBytes] at hmove
  omega

theorem resize_eq_append {buffer : Bytes} {n : Nat} (h : buffer.length ≤ n) :
    resize buffer n = buffer ++ List.replicate (n - buffer.length) 0 := by
  rw [resize, List.take_of_length_le h]

theorem makeSpace_resize {b : Buffer} {len : Nat} (h : b.Valid)
    (hshort : b.writableBytes < len) (hres : b.mustResize len) :
    ∃ b', b.makeSpace len = some b' ∧ b'.Valid ∧ b'.readable = b.readable ∧
      len ≤ b'.writableBytes := by
  have hbound := h.bounded
  rw [writableBytes] at hshort
  have heq : resize b.buffer_ (b.writerIndex_ + len) = b.buffer_ ++
      List.replicate (b.writerIndex_ + len - b.buffer_.length) 0 :=
    resize_eq_append (by omega)
  have hlen : (resize b.buffer_ (b.writerIndex_ + len)).length = b.writerIndex_ + len := by
    rw [heq, List.length_append, List.length_replicate]
    omega
  refine ⟨{ b with buffer_ := resize b.buffer_ (b.writerIndex_ + len) },
    by rw [makeSpace, if_pos hres], ⟨h.prepend, h.ordered, ?_⟩, ?_, ?_⟩
  · simp only [hlen]
    omega
  · simp only [readable, heq]
    exact window_append_right _ h.bounded h.ordered
  · simp only [writableBytes, hlen]
    omega

theorem makeSpace_move {b : Buffer} {len : Nat} (h : b.Valid)
    (hmove : ¬ b.mustResize len) :
    ∃ b', b.makeSpace len = some b' ∧ b'.Valid ∧ b'.readable = b.readable ∧
      len ≤ b'.writableBytes := by
  have hpre := h.prepend
  have hord := h.ordered
  have hbound := h.bounded
  have hcopy : copyWithin b.buffer_ b.readerIndex_ kCheapPrepend b.readableBytes =
      some (b.buffer_.take kCheapPrepend ++ b.readable ++
        b.buffer_.drop (kCheapPrepend + b.readableBytes)) :=
    copyWithin_eq hpre (by rw [readableBytes]; omega)
  have hlen : (b.buffer_.take kCheapPrepend ++ b.readable ++
      b.buffer_.drop (kCheapPrepend + b.readableBytes)).length = b.buffer_.length := by
    rw [List.length_append, List.length_append, List.length_take, List.length_drop,
      h.readable_length, readableBytes]
    omega
  refine ⟨_, by rw [makeSpace, if_neg hmove, hcopy]; rfl,
    ⟨Nat.le_refl _, Nat.le_add_right _ _, ?_⟩, ?_, ?_⟩
  · simp only [hlen]
    rw [readableBytes]
    omega
  · exact window_moved _ (by omega) hbound
  · rw [mustResize, prependableBytes, writableBytes] at hmove
    simp only [writableBytes, hlen]
    rw [readableBytes]
    omega

theorem Valid.makeSpace {b : Buffer} {len : Nat} (h : b.Valid)
    (hshort : b.writableBytes < len) :
    ∃ b', b.makeSpace len = some b' ∧ b'.Valid ∧ b'.readable = b.readable ∧
      len ≤ b'.writableBytes := by
  by_cases hres : b.mustResize len
  · exact makeSpace_resize h hshort hres
  · exact makeSpace_move h hres

theorem Valid.ensureWriteableBytes {b : Buffer} (h : b.Valid) (len : Nat) :
    ∃ b', b.ensureWriteableBytes len = some b' ∧ b'.Valid ∧ b'.readable = b.readable ∧
      len ≤ b'.writableBytes := by
  rw [Buffer.ensureWriteableBytes]
  split
  · rename_i hshort
    exact h.makeSpace hshort
  · rename_i henough
    exact ⟨b, rfl, h, rfl, by omega⟩

/-- Writing `data` into the free space and advancing `writerIndex_` extends the readable
bytes by `data`. -/
theorem Valid.write {b : Buffer} (h : b.Valid) {data : Bytes}
    (hroom : data.length ≤ b.writableBytes) :
    ∃ buffer, copyIn b.buffer_ b.writerIndex_ data = some buffer ∧
      buffer.length = b.buffer_.length ∧
      window buffer b.readerIndex_ (b.writerIndex_ + data.length) = b.readable ++ data := by
  have hbound := h.bounded
  rw [writableBytes] at hroom
  refine ⟨_, copyIn_eq (by omega), ?_, window_extend _ _ h.ordered hbound⟩
  rw [List.length_append, List.length_append, List.length_take, List.length_drop]
  omega

theorem Valid.append {b : Buffer} (h : b.Valid) (data : Bytes) :
    ∃ b', b.append data = some b' ∧ b'.Valid ∧ b'.readable = b.readable ++ data := by
  obtain ⟨b₁, he, h₁, hr, hroom⟩ := h.ensureWriteableBytes data.length
  obtain ⟨buffer, hcopy, hlen, hwin⟩ := h₁.write hroom
  have hord := h₁.ordered
  have hbound := h₁.bounded
  rw [writableBytes] at hroom
  refine ⟨{ b₁ with buffer_ := buffer, writerIndex_ := b₁.writerIndex_ + data.length },
    ?_, ⟨h₁.prepend, ?_, ?_⟩, ?_⟩
  · rw [Buffer.append, he]
    simp only [Option.bind_some, hcopy, Option.map_some]
  · simp only
    omega
  · simp only [hlen]
    omega
  · rw [← hr]
    exact hwin

/-- After a read that overfills the free space, the array is full up to its end. -/
theorem Valid.fill {b : Buffer} (h : b.Valid) {bytes : Bytes}
    (hfull : b.writableBytes ≤ bytes.length) :
    ∃ buffer, b.fillWritable bytes = some buffer ∧
      Valid { b with buffer_ := buffer, writerIndex_ := buffer.length } ∧
      readable { b with buffer_ := buffer, writerIndex_ := buffer.length } =
        b.readable ++ bytes.take b.writableBytes := by
  have htake : (bytes.take b.writableBytes).length = b.writableBytes := by
    rw [List.length_take, Nat.min_eq_left hfull]
  obtain ⟨buffer, hcopy, hlen, hwin⟩ := h.write (Nat.le_of_eq htake)
  have hord := h.ordered
  have hbound := h.bounded
  have hend : b.writerIndex_ + (bytes.take b.writableBytes).length = buffer.length := by
    rw [htake, hlen, writableBytes]
    omega
  rw [hend] at hwin
  refine ⟨buffer, hcopy, ⟨h.prepend, ?_, Nat.le_refl _⟩, hwin⟩
  simp only [hlen]
  omega

/-- A successful read appends what `::readv` stored, whether or not it spilled. -/
theorem Valid.readFd {b : Buffer} (h : b.Valid) {bytes : Bytes}
    (htotal : bytes.length ≤ b.iovTotal) :
    ∃ b' : Buffer, b.readFd (.stored bytes) = some (b', (bytes.length : Int), none) ∧ b'.Valid ∧
      b'.readable = b.readable ++ bytes := by
  by_cases hfit : bytes.length < b.writableBytes
  · have htake : bytes.take b.writableBytes = bytes :=
      List.take_of_length_le (Nat.le_of_lt hfit)
    obtain ⟨buffer, hcopy, hlen, hwin⟩ := h.write (Nat.le_of_lt hfit)
    have hfill : b.fillWritable bytes = some buffer := by rw [fillWritable, htake, hcopy]
    have hord := h.ordered
    have hbound := h.bounded
    rw [writableBytes] at hfit
    refine ⟨{ b with buffer_ := buffer, writerIndex_ := b.writerIndex_ + bytes.length },
      ?_, ⟨h.prepend, ?_, ?_⟩, hwin⟩
    · rw [Buffer.readFd, hfill, Option.bind_some, if_pos (by rw [writableBytes]; exact hfit)]
    · simp only
      omega
    · simp only [hlen]
      omega
  · have hfull : b.writableBytes ≤ bytes.length := Nat.le_of_not_lt hfit
    obtain ⟨buffer, hfill, hvalid, hread⟩ := h.fill hfull
    -- `append` re-enters with no free byte left
    obtain ⟨b', happ, hvalid', hread'⟩ := hvalid.append (bytes.drop b.writableBytes)
    have hspill : bytes.length - b.writableBytes ≤ sizeofExtrabuf := by
      rw [iovTotal] at htotal
      split at htotal <;> omega
    refine ⟨b', ?_, hvalid', ?_⟩
    · rw [Buffer.readFd, hfill, Option.bind_some, if_neg hfit, if_pos hspill, happ]
      rfl
    · rw [hread', hread, List.append_assoc, List.take_append_drop]

end Buffer

/-! ## Buffers that carry their invariant -/

/-- A buffer with its index invariant; on these no operation leaves the array. -/
abbrev ValidBuffer := { b : Buffer // b.Valid }

namespace ValidBuffer

def create (initialSize : Nat) : ValidBuffer :=
  ⟨Buffer.create initialSize, Buffer.create_valid initialSize⟩

def readableBytes (b : ValidBuffer) : Nat := b.val.readableBytes

def readable (b : ValidBuffer) : Bytes := b.val.readable

def retrieve (b : ValidBuffer) (len : Nat) : ValidBuffer :=
  ⟨b.val.retrieve len, b.property.retrieve len⟩

def append (b : ValidBuffer) (data : Bytes) : ValidBuffer :=
  ⟨(b.val.append data).get (by obtain ⟨_, h, _⟩ := b.property.append data; simp [h]),
    by obtain ⟨_, h, hv, _⟩ := b.property.append data; simpa [h] using hv⟩

/-- `readFd` on a socket that holds `pending`: `::readv` takes what the iovecs have room
for. -/
def readFd (b : ValidBuffer) : Readv → ValidBuffer × Int × Option Errno
  | .failed errno => (b, -1, some errno)
  | .stored pending =>
    have hroom := b.property.readFd (List.length_take_le b.val.iovTotal pending)
    let r := (b.val.readFd (.stored (pending.take b.val.iovTotal))).get
      (by obtain ⟨_, h, _⟩ := hroom; simp [h])
    (⟨r.1, by obtain ⟨_, h, hv, _⟩ := hroom; simpa [r, h] using hv⟩, r.2)

def writeFd (b : ValidBuffer) (result : WriteResult) : Bytes × WriteResult :=
  (b.val.writeFd result).get (by simp [Buffer.writeFd, b.property.peek_eq (Nat.le_refl _)])

theorem readableBytes_eq (b : ValidBuffer) : b.readableBytes = b.readable.length :=
  b.property.readable_length.symm

theorem readableBytes_eq_zero {b : ValidBuffer} : b.readableBytes = 0 ↔ b.readable = [] := by
  rw [readableBytes_eq, List.length_eq_zero_iff]

@[simp] theorem readable_create (initialSize : Nat) : (create initialSize).readable = [] :=
  Buffer.readable_create initialSize

@[simp] theorem readable_retrieve (b : ValidBuffer) (len : Nat) :
    (b.retrieve len).readable = b.readable.drop len :=
  b.property.readable_retrieve len

@[simp] theorem readable_append (b : ValidBuffer) (data : Bytes) :
    (b.append data).readable = b.readable ++ data := by
  obtain ⟨b', h, _, hr⟩ := b.property.append data
  have hval : (b.append data).val = b' := by simp [append, h]
  rw [readable, hval, hr]
  rfl

/-- `::write` is offered all readable bytes. -/
@[simp] theorem writeFd_eq (b : ValidBuffer) (result : WriteResult) :
    b.writeFd result = (b.readable, result) := by
  have hall : b.val.readable.take b.val.readableBytes = b.val.readable :=
    List.take_of_length_le (Nat.le_of_eq b.property.readable_length)
  simp [writeFd, Buffer.writeFd, b.property.peek_eq (Nat.le_refl _), hall, readable]

/-- `readFd` returns 0 exactly at the end of the stream. -/
theorem readFd_eq_zero {b : ValidBuffer} {r : Readv} :
    (b.readFd r).2.1 = 0 ↔ r = .stored [] := by
  cases r with
  | failed errno => simp [readFd]
  | stored pending =>
    obtain ⟨b', h, _, _⟩ := b.property.readFd (List.length_take_le b.val.iovTotal pending)
    have hn : (b.readFd (.stored pending)).2.1 = ((pending.take b.val.iovTotal).length : Int) := by
      simp [readFd, h]
    have hroom : 0 < b.val.iovTotal := by
      rw [Buffer.iovTotal, sizeofExtrabuf]
      split <;> omega
    rw [hn, List.length_take, Readv.stored.injEq, ← List.length_eq_zero_iff]
    omega

end ValidBuffer
end CppInOne.Mymuduo
