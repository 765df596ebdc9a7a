import CppInOne.Mprpc.RpcProvider

/-!
# Which receive buffers are handled safely

`OnMessage` checks neither the length of the buffer nor that the two sizes in it are covered
by the bytes that arrived: `copy` and the lengths of `substr` are clamped, the positions of
`substr` throw, and the position of the args wraps at `2 ^ 32`. This file proves what that
leaves: the buffers on which `OnMessage` is safe are exactly those that escape each of these.
-/

namespace CppInOne.Mprpc.RpcProvider
open ByteString

variable {T M : Type} {p : RpcProvider T} {pb : Protobuf T M} {e : Endian} {b : Bytes}

/-- The buffer really contains a request for this call; all sums are natural numbers. -/
structure Contains (p : RpcProvider T) (pb : Protobuf T M) (e : Endian) (b : Bytes)
    (hdr : RpcHeader) (c : Call T M) : Prop where
  size : 4 + (headerSize e b).toNat + hdr.args_size.toNat ≤ b.length
  header : pb.RpcHeader.ParseFromString ((b.drop 4).take (headerSize e b).toNat) = some hdr
  publishes : p.Publishes hdr.service_name hdr.method_name c.service c.method
  args : (pb.message c.method.input_type).ParseFromString
    ((b.drop (4 + (headerSize e b).toNat)).take hdr.args_size.toNat) = some c.request

/-- `OnMessage` does not throw, and calls only what the buffer contains. -/
def Safe (p : RpcProvider T) (pb : Protobuf T M) (e : Endian) (b : Bytes) : Prop :=
  ∃ r, p.OnMessage pb e b = .ok r ∧ ∀ c, r.call = some c → ∃ hdr, Contains p pb e b hdr c

/-- The sizes that were read stay within the buffer. Only when `4 + header_size` wraps are the
args read from elsewhere; they must then encode what the right ones encode. -/
structure Fits (pb : Protobuf T M) (e : Endian) (b : Bytes) (hdr : RpcHeader)
    (c : Call T M) : Prop where
  size : 4 + (headerSize e b).toNat + hdr.args_size.toNat ≤ b.length
  wrapped : 2 ^ 32 ≤ 4 + (headerSize e b).toNat →
    (pb.message c.method.input_type).ParseFromString
      ((b.drop (4 + (headerSize e b).toNat)).take hdr.args_size.toNat) = some c.request

theorem argsOffset_eq (h : 4 + (headerSize e b).toNat < 2 ^ 32) :
    argsOffset e b = 4 + (headerSize e b).toNat := by
  unfold argsOffset
  rw [UInt32.toNat_add]
  exact Nat.mod_eq_of_lt h

theorem Reads.contains {hdr : RpcHeader} {c : Call T M} (h : p.Reads pb e b hdr c)
    (hfits : Fits pb e b hdr c) : Contains p pb e b hdr c where
  size := hfits.size
  header := h.header
  publishes := h.publishes
  args := by
    by_cases hwrap : 2 ^ 32 ≤ 4 + (headerSize e b).toNat
    · exact hfits.wrapped hwrap
    · have hargs := h.args
      rwa [argsStr, argsOffset_eq (Nat.not_le.mp hwrap)] at hargs

theorem Contains.fits {hdr : RpcHeader} {c : Call T M} (h : Contains p pb e b hdr c) :
    Fits pb e b hdr c :=
  ⟨h.size, fun _ => h.args⟩

/-- **`OnMessage` is safe exactly on the buffers that no unchecked size betrays**: neither
`substr` position lies behind the end, and whatever the buffer is read as fits into it. -/
theorem safe_iff_fits : Safe p pb e b ↔
    ¬ Throws pb e b ∧ ∀ hdr c, p.Reads pb e b hdr c → Fits pb e b hdr c := by
  constructor
  · rintro ⟨r, hr, hcontains⟩
    have hthrows : ¬ Throws pb e b := by
      intro h
      simp [OnMessage_throws h] at hr
    refine ⟨hthrows, fun hdr c hreads => ?_⟩
    obtain ⟨r', hr', -, hcall⟩ := OnMessage_returns (p := p) hthrows
    obtain rfl : r = r' := by simpa [hr] using hr'
    obtain ⟨hdr', hc⟩ := hcontains c ((hcall c).mpr ⟨hdr, hreads⟩)
    -- the header bytes are the same in both readings, only the args may differ
    obtain rfl := hreads.header_unique hc.header
    exact hc.fits
  · rintro ⟨hthrows, hfits⟩
    obtain ⟨r, hr, -, hcall⟩ := OnMessage_returns (p := p) hthrows
    refine ⟨r, hr, fun c hc => ?_⟩
    obtain ⟨hdr, hreads⟩ := (hcall c).mp hc
    exact ⟨hdr, hreads.contains (hfits hdr c hreads)⟩

/-- A delivery of fewer than four bytes makes `OnMessage` throw. -/
theorem short_buffer_unsafe :
    ¬ Safe (create.NotifyService UserService) userProtobuf .little [25, 0, 0] := by
  rintro ⟨r, hr, -⟩
  have hshort : Throws userProtobuf .little [25, 0, 0] := Or.inl (by decide)
  simp [OnMessage_throws hshort] at hr

end CppInOne.Mprpc.RpcProvider
