import CppInOne.Mymuduo.Buffer
import Mathlib.Algebra.Group.Nat.Defs

/-!
# The network buffer with machine integers

The indices of `Buffer` and the lengths that are asked for are `size_t`s. `makeSpace` adds a length
to an offset twice, once to choose between moving the data and a larger array, once for the new
size. Both sums wrap at 2^64.

## Main definitions

- `SizedBuffer`, `SizedBuffer.ensureWriteableBytes` — the functions of the source on `size_t`s
- `SizedBuffer.Fits` — the write index and the length do not overflow, or moving the data suffices

## Main results

- `SizedBuffer.ensureWriteableBytes_toBuffer` — a length that fits is treated as in `Buffer`
- `SizedBuffer.ensureWriteableBytes_safe_iff` — there is room afterwards exactly when it fits
- `SizedBuffer.ensureWriteableBytes_shrinks` — otherwise the data may be cut off
-/

namespace CppInOne.Mymuduo
open ArrayCopy

structure SizedBuffer where
  buffer_ : Bytes
  readerIndex_ : UInt64
  writerIndex_ : UInt64
  deriving DecidableEq, Repr

namespace SizedBuffer

/-! ## The functions of the source -/

/-- How a function ends, and the buffer that it leaves. -/
inductive Outcome where
  | returned (b : SizedBuffer)
  /-- with an exception of the vector -/
  | thrown (b : SizedBuffer)
  deriving DecidableEq, Repr

/-- `buffer_.size()` -/
def size (b : SizedBuffer) : UInt64 := .ofNat b.buffer_.length

def readableBytes (b : SizedBuffer) : UInt64 := b.writerIndex_ - b.readerIndex_

def writableBytes (b : SizedBuffer) : UInt64 := b.size - b.writerIndex_

def prependableBytes (b : SizedBuffer) : UInt64 := b.readerIndex_

/-- `std::vector::resize`: growing throws if there is no memory for this array or it would be too
long, and leaves the vector as it was. -/
def resize (grows : Bytes → Nat → Bool) (buffer : Bytes) (n : UInt64) : Option Bytes :=
  if buffer.length < n.toNat ∧ grows buffer n.toNat = false then none
  else some (Buffer.resize buffer n.toNat)

/-- `none` is an access outside the array. -/
def makeSpace (grows : Bytes → Nat → Bool) (b : SizedBuffer) (len : UInt64) : Option Outcome :=
  if b.writableBytes + b.prependableBytes < len + .ofNat kCheapPrepend then
    match resize grows b.buffer_ (b.writerIndex_ + len) with
    | none => some (.thrown b)
    | some buffer => some (.returned { b with buffer_ := buffer })
  else
    (copyWithin b.buffer_ b.readerIndex_.toNat kCheapPrepend b.readableBytes.toNat).map
      fun buffer => .returned
        { buffer_ := buffer
          readerIndex_ := .ofNat kCheapPrepend
          writerIndex_ := .ofNat kCheapPrepend + b.readableBytes }

def ensureWriteableBytes (grows : Bytes → Nat → Bool) (b : SizedBuffer) (len : UInt64) :
    Option Outcome :=
  if b.writableBytes < len then b.makeSpace grows len else some (.returned b)

/-! ## Sizes as natural numbers -/

/-- The same buffer with indices that cannot overflow. -/
def toBuffer (b : SizedBuffer) : Buffer :=
  ⟨b.buffer_, b.readerIndex_.toNat, b.writerIndex_.toNat⟩

/-- The index invariant, for an array whose size is a `size_t`. -/
structure Valid (b : SizedBuffer) : Prop where
  indices : b.toBuffer.Valid
  size_lt : b.buffer_.length < 2 ^ 64

def readable (b : SizedBuffer) : Bytes := b.toBuffer.readable

/-- The length fits behind the write index, or the free bytes on both sides suffice. -/
def Fits (b : SizedBuffer) (len : UInt64) : Prop :=
  b.writerIndex_.toNat + len.toNat < 2 ^ 64 ∨
    len.toNat + kCheapPrepend ≤ b.toBuffer.writableBytes + b.toBuffer.prependableBytes

/-- What `ensureWriteableBytes` is for: an exception leaves the buffer as it was, and without one
there is room, the data is the same and the write index is inside the array. -/
def Outcome.Safe (b : SizedBuffer) (len : UInt64) : Outcome → Prop
  | thrown b' => b' = b
  | returned b' => len ≤ b'.writableBytes ∧ b'.readable = b.readable ∧ b'.writerIndex_ ≤ b'.size

section

variable {b : SizedBuffer} {len : UInt64}

theorem toNat_size (h : b.buffer_.length < 2 ^ 64) : b.size.toNat = b.buffer_.length :=
  Nat.mod_eq_of_lt h

theorem toNat_writableBytes (hsize : b.buffer_.length < 2 ^ 64)
    (hbound : b.writerIndex_.toNat ≤ b.buffer_.length) :
    b.writableBytes.toNat = b.buffer_.length - b.writerIndex_.toNat := by
  have hle : b.writerIndex_ ≤ b.size := by
    rw [UInt64.le_iff_toNat_le, toNat_size hsize]
    exact hbound
  rw [writableBytes, UInt64.toNat_sub_of_le _ _ hle, toNat_size hsize]

theorem Valid.toNat_writableBytes (h : b.Valid) :
    b.writableBytes.toNat = b.toBuffer.writableBytes :=
  SizedBuffer.toNat_writableBytes h.size_lt h.indices.bounded

theorem Valid.toNat_readableBytes (h : b.Valid) :
    b.readableBytes.toNat = b.toBuffer.readableBytes :=
  UInt64.toNat_sub_of_le _ _ (UInt64.le_iff_toNat_le.mpr h.indices.ordered)

/-- The free bytes on both sides do not overflow. -/
theorem Valid.toNat_free (h : b.Valid) :
    (b.writableBytes + b.prependableBytes).toNat =
      b.toBuffer.writableBytes + b.toBuffer.prependableBytes := by
  have hord : b.readerIndex_.toNat ≤ b.writerIndex_.toNat := h.indices.ordered
  have hbound : b.writerIndex_.toNat ≤ b.buffer_.length := h.indices.bounded
  have hsize := h.size_lt
  rw [UInt64.toNat_add, h.toNat_writableBytes]
  refine Nat.mod_eq_of_lt ?_
  show b.buffer_.length - b.writerIndex_.toNat + b.readerIndex_.toNat < 2 ^ 64
  omega

theorem toNat_add_kCheapPrepend (len : UInt64) :
    (len + .ofNat kCheapPrepend).toNat = (len.toNat + kCheapPrepend) % 2 ^ 64 :=
  UInt64.toNat_add _ _

/-- The test of `makeSpace`, with the sum on the right as it is computed. -/
theorem Valid.test_iff (h : b.Valid) :
    b.writableBytes + b.prependableBytes < len + .ofNat kCheapPrepend ↔
      b.toBuffer.writableBytes + b.toBuffer.prependableBytes <
        (len.toNat + kCheapPrepend) % 2 ^ 64 := by
  rw [UInt64.lt_iff_toNat_lt, h.toNat_free, toNat_add_kCheapPrepend]

/-- Without overflow the test is that of `Buffer`. -/
theorem Valid.test_iff_of_fits (h : b.Valid) (hfits : b.Fits len) :
    b.writableBytes + b.prependableBytes < len + .ofNat kCheapPrepend ↔
      b.toBuffer.mustResize len.toNat := by
  have hpre : kCheapPrepend ≤ b.readerIndex_.toNat := h.indices.prepend
  have hord : b.readerIndex_.toNat ≤ b.writerIndex_.toNat := h.indices.ordered
  have hfree : b.toBuffer.writableBytes + b.toBuffer.prependableBytes < 2 ^ 64 := by
    rw [← h.toNat_free]
    exact UInt64.toNat_lt _
  have hsum : len.toNat + kCheapPrepend < 2 ^ 64 := by
    obtain hlen | hlen := hfits
    · omega
    · omega
  rw [h.test_iff, Nat.mod_eq_of_lt hsum]
  exact Iff.rfl

theorem resize_eq (grows : Bytes → Nat → Bool) (buffer : Bytes) (n : UInt64) :
    resize grows buffer n = none ∧ buffer.length < n.toNat ∨
      resize grows buffer n = some (Buffer.resize buffer n.toNat) := by
  rw [resize]
  split
  · rename_i hthrows
    exact .inl ⟨rfl, hthrows.1⟩
  · exact .inr rfl

/-- The data can be moved to the front, and the new write index does not overflow. -/
theorem Valid.move (h : b.Valid) :
    ∃ buffer, copyWithin b.buffer_ b.readerIndex_.toNat kCheapPrepend b.readableBytes.toNat =
        some buffer ∧ buffer.length = b.buffer_.length ∧
      (UInt64.ofNat kCheapPrepend + b.readableBytes).toNat =
        kCheapPrepend + b.toBuffer.readableBytes := by
  have hpre : kCheapPrepend ≤ b.readerIndex_.toNat := h.indices.prepend
  have hbound : b.writerIndex_.toNat ≤ b.buffer_.length := h.indices.bounded
  have hord : b.readerIndex_.toNat ≤ b.writerIndex_.toNat := h.indices.ordered
  have hread : b.readableBytes.toNat = b.writerIndex_.toNat - b.readerIndex_.toNat :=
    h.toNat_readableBytes
  have hcopy : copyWithin b.buffer_ b.readerIndex_.toNat kCheapPrepend b.readableBytes.toNat =
      some _ := copyWithin_eq hpre (by omega)
  refine ⟨_, hcopy, copyWithin_length hcopy, ?_⟩
  rw [UInt64.toNat_add, h.toNat_readableBytes]
  refine Nat.mod_eq_of_lt ?_
  have hsize := h.size_lt
  have hprepend : (UInt64.ofNat kCheapPrepend).toNat = kCheapPrepend := rfl
  rw [hprepend, ← h.toNat_readableBytes, hread]
  omega

end

/-! ## Lengths that fit -/

section

variable (grows : Bytes → Nat → Bool) {b : SizedBuffer} {len : UInt64}

theorem makeSpace_toBuffer (h : b.Valid) (hfits : b.Fits len)
    (hshort : b.toBuffer.writableBytes < len.toNat) :
    b.makeSpace grows len = some (.thrown b) ∨
      ∃ b', b.makeSpace grows len = some (.returned b') ∧
        b.toBuffer.makeSpace len.toNat = some b'.toBuffer ∧ b'.buffer_.length < 2 ^ 64 := by
  have htest := h.test_iff_of_fits hfits
  by_cases hmust : b.toBuffer.mustResize len.toNat
  · have hsum : b.writerIndex_.toNat + len.toNat < 2 ^ 64 :=
      hfits.resolve_right (Nat.not_le.mpr hmust)
    have hadd : (b.writerIndex_ + len).toNat = b.writerIndex_.toNat + len.toNat := by
      rw [UInt64.toNat_add, Nat.mod_eq_of_lt hsum]
    have hlen : b.buffer_.length ≤ b.writerIndex_.toNat + len.toNat := by
      change b.buffer_.length - b.writerIndex_.toNat < len.toNat at hshort
      omega
    rw [makeSpace, if_pos (htest.mpr hmust), Buffer.makeSpace, if_pos hmust]
    obtain ⟨hnone, -⟩ | hsome := resize_eq grows b.buffer_ (b.writerIndex_ + len)
    · rw [hnone]
      exact .inl rfl
    · rw [hsome, hadd]
      refine .inr ⟨_, rfl, rfl, ?_⟩
      show (Buffer.resize b.buffer_ (b.writerIndex_.toNat + len.toNat)).length < 2 ^ 64
      rw [Buffer.resize_eq_append hlen, List.length_append, List.length_replicate]
      omega
  · obtain ⟨buffer, hcopy, hlength, hindex⟩ := h.move
    rw [makeSpace, if_neg (mt htest.mp hmust), Buffer.makeSpace, if_neg hmust, hcopy]
    rw [h.toNat_readableBytes] at hcopy
    refine .inr ⟨_, rfl, ?_, ?_⟩
    · show (copyWithin b.buffer_ b.readerIndex_.toNat kCheapPrepend _).map _ = _
      rw [hcopy]
      show some (Buffer.mk buffer kCheapPrepend (kCheapPrepend + b.toBuffer.readableBytes)) = _
      rw [← hindex]
      rfl
    · show buffer.length < 2 ^ 64
      rw [hlength]
      exact h.size_lt

/-- **A length that fits is treated as in `Buffer`**, unless the vector throws. -/
theorem ensureWriteableBytes_toBuffer (h : b.Valid) (hfits : b.Fits len) :
    b.ensureWriteableBytes grows len = some (.thrown b) ∨
      ∃ b', b.ensureWriteableBytes grows len = some (.returned b') ∧
        b.toBuffer.ensureWriteableBytes len.toNat = some b'.toBuffer ∧
        b'.buffer_.length < 2 ^ 64 := by
  have hwritable : b.writableBytes < len ↔ b.toBuffer.writableBytes < len.toNat := by
    rw [UInt64.lt_iff_toNat_lt, h.toNat_writableBytes]
  by_cases hshort : b.toBuffer.writableBytes < len.toNat
  · rw [ensureWriteableBytes, if_pos (hwritable.mpr hshort), Buffer.ensureWriteableBytes,
      if_pos hshort]
    exact makeSpace_toBuffer grows h hfits hshort
  · rw [ensureWriteableBytes, if_neg (mt hwritable.mp hshort), Buffer.ensureWriteableBytes,
      if_neg hshort]
    exact .inr ⟨b, rfl, rfl, h.size_lt⟩

theorem safe_of_fits (h : b.Valid) (hfits : b.Fits len) :
    ∃ o, b.ensureWriteableBytes grows len = some o ∧ o.Safe b len := by
  obtain hthrown | ⟨b', hreturned, hbuffer, hsize⟩ :=
    ensureWriteableBytes_toBuffer grows h hfits
  · exact ⟨_, hthrown, rfl⟩
  · obtain ⟨b'', hb'', hvalid, hreadable, hroom⟩ := h.indices.ensureWriteableBytes len.toNat
    obtain rfl : b'.toBuffer = b'' := Option.some.inj (hbuffer.symm.trans hb'')
    have hvalid' : b'.Valid := ⟨hvalid, hsize⟩
    refine ⟨_, hreturned, ?_, hreadable, ?_⟩
    · rw [UInt64.le_iff_toNat_le, hvalid'.toNat_writableBytes]
      exact hroom
    · rw [UInt64.le_iff_toNat_le, toNat_size hsize]
      exact hvalid.bounded

/-! ## Lengths that do not fit -/

/-- The first sum wraps: the data is moved although that does not make enough room. -/
theorem not_safe_of_move (h : b.Valid) (hwrap : 2 ^ 64 ≤ len.toNat + kCheapPrepend) :
    ∃ b', b.makeSpace grows len = some (.returned b') ∧ ¬ (Outcome.returned b').Safe b len := by
  have hpre : kCheapPrepend ≤ b.readerIndex_.toNat := h.indices.prepend
  have hlen : len.toNat < 2 ^ 64 := len.toNat_lt
  have htest : ¬ b.writableBytes + b.prependableBytes < len + .ofNat kCheapPrepend := by
    rw [h.test_iff]
    show ¬ b.toBuffer.writableBytes + b.readerIndex_.toNat < _
    omega
  obtain ⟨buffer, hcopy, hlength, hindex⟩ := h.move
  refine ⟨⟨buffer, .ofNat kCheapPrepend, .ofNat kCheapPrepend + b.readableBytes⟩, ?_, ?_⟩
  · rw [makeSpace, if_neg htest, hcopy]
    rfl
  · rintro ⟨hroom, -, hwriter⟩
    have hsize : buffer.length < 2 ^ 64 := hlength ▸ h.size_lt
    rw [UInt64.le_iff_toNat_le, toNat_size hsize] at hwriter
    rw [UInt64.le_iff_toNat_le, toNat_writableBytes hsize hwriter] at hroom
    -- the prepended bytes alone take away more than the length leaves
    simp only [hindex] at hroom
    rw [kCheapPrepend] at hwrap hroom
    omega

/-- The second sum wraps: the vector shrinks below the write index. -/
theorem not_safe_of_shrink (h : b.Valid) (hfits : ¬ b.Fits len)
    (hsum : len.toNat + kCheapPrepend < 2 ^ 64) :
    ∃ b', b.makeSpace grows len = some (.returned b') ∧ ¬ (Outcome.returned b').Safe b len := by
  obtain ⟨hwrap, hfree⟩ := not_or.mp hfits
  have hlen : len.toNat < 2 ^ 64 := len.toNat_lt
  have hbound : b.writerIndex_.toNat ≤ b.buffer_.length := h.indices.bounded
  have hsize := h.size_lt
  have hadd : (b.writerIndex_ + len).toNat = b.writerIndex_.toNat + len.toNat - 2 ^ 64 := by
    rw [UInt64.toNat_add]
    omega
  have htest : b.writableBytes + b.prependableBytes < len + .ofNat kCheapPrepend := by
    rw [h.test_iff, Nat.mod_eq_of_lt hsum]
    exact Nat.not_le.mp hfree
  have hresize := (resize_eq grows b.buffer_ (b.writerIndex_ + len)).resolve_left
    fun hnone => by omega
  refine ⟨{ b with buffer_ := Buffer.resize b.buffer_ (b.writerIndex_ + len).toNat }, ?_, ?_⟩
  · rw [makeSpace, if_pos htest, hresize]
  · rintro ⟨-, -, hwriter⟩
    have hlength : (Buffer.resize b.buffer_ (b.writerIndex_ + len).toNat).length =
        (b.writerIndex_ + len).toNat := by
      rw [Buffer.resize, List.length_append, List.length_take, List.length_replicate]
      omega
    have hsize' := (b.writerIndex_ + len).toNat_lt
    rw [← hlength] at hsize'
    rw [UInt64.le_iff_toNat_le, toNat_size hsize'] at hwriter
    have hshrunk : b.writerIndex_.toNat ≤ (b.writerIndex_ + len).toNat := hlength ▸ hwriter
    omega

theorem fits_of_safe (h : b.Valid)
    (hsafe : ∃ o, b.ensureWriteableBytes grows len = some o ∧ o.Safe b len) : b.Fits len := by
  by_contra hfits
  have hwrap : ¬ b.writerIndex_.toNat + len.toNat < 2 ^ 64 := (not_or.mp hfits).1
  have hbound : b.writerIndex_.toNat ≤ b.buffer_.length := h.indices.bounded
  have hsize := h.size_lt
  have hbad : ∃ b', b.makeSpace grows len = some (.returned b') ∧
      ¬ (Outcome.returned b').Safe b len := by
    obtain hsum | hsum := Nat.lt_or_ge (len.toNat + kCheapPrepend) (2 ^ 64)
    · exact not_safe_of_shrink grows h hfits hsum
    · exact not_safe_of_move grows h hsum
  have hshort : b.writableBytes < len := by
    rw [UInt64.lt_iff_toNat_lt, h.toNat_writableBytes]
    show b.buffer_.length - b.writerIndex_.toNat < len.toNat
    omega
  obtain ⟨o, ho, hsafe⟩ := hsafe
  obtain ⟨b', hb', hnot⟩ := hbad
  rw [ensureWriteableBytes, if_pos hshort, hb'] at ho
  cases ho
  exact hnot hsafe

/-- **`ensureWriteableBytes` is safe exactly for lengths that fit**, whatever memory there is: the
write index and the length together do not overflow, or moving the data makes enough room. -/
theorem ensureWriteableBytes_safe_iff (h : b.Valid) (len : UInt64) :
    (∃ o, b.ensureWriteableBytes grows len = some o ∧ o.Safe b len) ↔ b.Fits len :=
  ⟨fits_of_safe grows h, safe_of_fits grows h⟩

end

/-- A buffer of four bytes with two bytes of data in it. -/
def greeting : SizedBuffer := ⟨[0, 0, 0, 0, 0, 0, 0, 0, 0x68, 0x69, 0, 0], 8, 10⟩

theorem ensureWriteableBytes_safe_iff_greeting :
    greeting.Valid ∧
      ∃ o, greeting.ensureWriteableBytes (fun _ _ => true) 100 = some o ∧ o.Safe greeting 100 := by
  have hvalid : greeting.Valid := ⟨⟨by decide, by decide, by decide⟩, by decide⟩
  refine ⟨hvalid, (ensureWriteableBytes_safe_iff (fun _ _ => true) hvalid 100).mpr (.inl ?_)⟩
  decide

/-- Asked for 2^64 - 9 bytes, the buffer shrinks to one byte, and its data is gone. -/
theorem ensureWriteableBytes_shrinks :
    greeting.Valid ∧
      greeting.ensureWriteableBytes (fun _ _ => true) 18446744073709551607 =
        some (.returned ⟨[0], 8, 10⟩) ∧
      ¬ (Outcome.returned ⟨[0], 8, 10⟩).Safe greeting 18446744073709551607 := by
  refine ⟨⟨⟨by decide, by decide, by decide⟩, by decide⟩, by decide +kernel, ?_⟩
  rintro ⟨-, -, hwriter⟩
  exact absurd hwriter (by decide)

end SizedBuffer

end CppInOne.Mymuduo
