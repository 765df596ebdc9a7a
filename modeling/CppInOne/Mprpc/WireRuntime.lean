import CppInOne.Lib.Varint
import CppInOne.Mprpc.MessageClass

/-!
# A protobuf runtime

The encoding of the protobuf documentation: numbers of variable length, strings behind their
length, and unknown fields by their wire type. Groups, which none of the classes has, are not
read.

## Main results

- `wireRuntime_lawful`, `wireRuntime_compact` — the runtime does what generated code relies on
-/

namespace CppInOne.Mprpc

inductive Payload where
  | varint (v : UInt64)
  | bytes (b : Bytes)
  deriving DecidableEq, Repr

structure UnknownField where
  tag : UInt32
  payload : Payload
  deriving DecidableEq, Repr

instance : Inhabited UnknownField := ⟨⟨0, .varint 0⟩⟩

namespace Payload

def toVarint : Payload → UInt64
  | varint v => v
  | bytes _ => 0

def toBytes : Payload → Bytes
  | varint _ => []
  | bytes b => b

end Payload

def wireTag : Coder UInt8 UInt32 := (Varint.coder 4).map UInt32.ofNat UInt32.toNat

def wireVarint64 : Coder UInt8 UInt64 := (Varint.coder 9).map UInt64.ofNat UInt64.toNat

def wireBytes : Coder UInt8 Bytes := Varint.lengthDelimited 4 (2 ^ 31) (by decide)

/-- A field that no class knows, by its wire type; groups are not read. -/
def wireUnknown (tag : UInt32) : Coder UInt8 UnknownField :=
  if tag >>> 3 = 0 then .never
  else if tag &&& 7 = 0 then
    wireVarint64.map (fun v => ⟨tag, .varint v⟩) fun u => u.payload.toVarint
  else if tag &&& 7 = 1 then
    (Coder.fixed UInt8 8 (by decide)).map (fun b => ⟨tag, .bytes b⟩) fun u => u.payload.toBytes
  else if tag &&& 7 = 2 then
    wireBytes.map (fun b => ⟨tag, .bytes b⟩) fun u => u.payload.toBytes
  else if tag &&& 7 = 5 then
    (Coder.fixed UInt8 4 (by decide)).map (fun b => ⟨tag, .bytes b⟩) fun u => u.payload.toBytes
  else .never

def wireRuntime : Runtime UnknownField where
  tag := wireTag
  varint32 := (Varint.coder 9).map UInt32.ofNat UInt32.toNat
  varint64 := wireVarint64
  bytes := wireBytes
  LengthDelimitedSize n := Varint.size 4 n + n
  unknown := wireUnknown
  tagOf u := u.tag

/-- Cutting a number off does not make it longer. -/
theorem size_ofNat32_le (k n : Nat) :
    (Varint.coder k).size (UInt32.toNat (UInt32.ofNat n)) ≤ (Varint.coder k).size n := by
  refine Varint.size_mono ?_
  rw [UInt32.toNat_ofNat']
  exact Nat.mod_le ..

theorem size_ofNat64_le (k n : Nat) :
    (Varint.coder k).size (UInt64.toNat (UInt64.ofNat n)) ≤ (Varint.coder k).size n := by
  refine Varint.size_mono ?_
  rw [UInt64.toNat_ofNat']
  exact Nat.mod_le ..

theorem wireVarint64_domain (v : UInt64) : wireVarint64.Domain v := by
  refine ⟨?_, UInt64.ofNat_toNat⟩
  show v.toNat < 128 ^ (9 + 1)
  have hlt := v.toNat_lt
  omega

theorem wireVarint64_sound : wireVarint64.Sound := fun _ v _ _ => wireVarint64_domain v

theorem wireVarint64_tight : wireVarint64.Tight := (Varint.coder_tight 9).map (size_ofNat64_le 9)

/-- What the laws need of the fields with one tag. -/
structure UnknownLawful (tag : UInt32) (c : Coder UInt8 UnknownField) : Prop where
  sound : c.Sound
  tight : c.Tight
  read_tag : ∀ {bs u rest}, c.read bs = some (u, rest) → u.tag = tag
  seven : tag &&& 7 = 7 → ∀ bs, c.read bs = none

theorem unknownLawful_never (tag : UInt32) : UnknownLawful tag .never where
  sound _ _ _ h := by cases h
  tight _ _ _ h := by cases h
  read_tag h := by cases h
  seven _ _ := rfl

theorem unknownLawful_map {α : Type} {tag : UInt32} {c : Coder UInt8 α} {f : α → UnknownField}
    {g : UnknownField → α} (hsound : c.Sound) (htight : c.Tight) (hfg : ∀ a, g (f a) = a)
    (htag : ∀ a, (f a).tag = tag) (hseven : tag &&& 7 ≠ 7) : UnknownLawful tag (c.map f g) where
  sound := hsound.map hfg
  tight := htight.map fun a => by rw [hfg]
  read_tag h := by
    obtain ⟨a, -, rfl⟩ := Coder.map_read_eq_some.mp h
    exact htag a
  seven h := absurd h hseven

theorem wireUnknown_lawful (tag : UInt32) : UnknownLawful tag (wireUnknown tag) := by
  unfold wireUnknown
  split_ifs with hzero h0 h1 h2 h5
  · exact unknownLawful_never tag
  · exact unknownLawful_map wireVarint64_sound wireVarint64_tight (fun _ => rfl) (fun _ => rfl)
      (by rw [h0]; decide)
  · exact unknownLawful_map Coder.fixed_sound Coder.fixed_tight (fun _ => rfl) (fun _ => rfl)
      (by rw [h1]; decide)
  · exact unknownLawful_map Varint.lengthDelimited_sound Varint.lengthDelimited_tight
      (fun _ => rfl) (fun _ => rfl) (by rw [h2]; decide)
  · exact unknownLawful_map Coder.fixed_sound Coder.fixed_tight (fun _ => rfl) (fun _ => rfl)
      (by rw [h5]; decide)
  · exact unknownLawful_never tag

theorem wireRuntime_lawful : wireRuntime.Lawful where
  tag_domain t := by
    refine ⟨?_, UInt32.ofNat_toNat⟩
    show t.toNat < 128 ^ (4 + 1)
    have hlt := t.toNat_lt
    omega
  tag_write {b} hb := by
    have hlt := UInt8.lt_iff_toNat_lt.mp hb
    show Varint.write 4 b.toUInt32.toNat = [b]
    have hsmall : b.toUInt32.toNat < 128 := by simpa using hlt
    rw [Varint.write, if_pos hsmall]
    simp
  varint32_domain v := by
    refine ⟨?_, UInt32.ofNat_toNat⟩
    show v.toNat < 128 ^ (9 + 1)
    have hlt := v.toNat_lt
    omega
  varint64_domain := wireVarint64_domain
  varint64_one := rfl
  bytes_domain {b} h := by
    show b.length < 2 ^ 31
    have hsize : Varint.size 4 b.length + b.length < 2 ^ 31 := h
    omega
  bytes_size _ := rfl
  le_lengthDelimitedSize n := Nat.le_add_left n _
  unknown_read h := by
    have htag := (wireUnknown_lawful _).read_tag h
    exact ⟨htag, (wireUnknown_lawful _).sound h⟩

theorem wireRuntime_compact : wireRuntime.Compact where
  tag := (Varint.coder_tight 4).map (size_ofNat32_le 4)
  varint32 := (Varint.coder_tight 9).map (size_ofNat32_le 9)
  bytes := @Varint.lengthDelimited_tight 4 (2 ^ 31) (by decide)
  unknown t := (wireUnknown_lawful t).tight
  varint32_mono h := Varint.size_mono (UInt32.le_iff_toNat_le.mp h)
  tag_low {b bs t rest} h := by
    obtain ⟨n, hn, rfl⟩ := Coder.map_read_eq_some.mp h
    have hmod := Varint.read_mod (k := 4) hn
    apply UInt32.toNat_inj.mp
    have hseven : ∀ m : UInt32, (m &&& 7).toNat = m.toNat % 8 := by
      intro m
      rw [UInt32.toNat_and]
      exact Nat.and_two_pow_sub_one_eq_mod m.toNat 3
    rw [hseven, hseven, UInt32.toNat_ofNat', UInt8.toNat_toUInt32]
    omega
  unknown_seven h := (wireUnknown_lawful _).seven h _

end CppInOne.Mprpc
