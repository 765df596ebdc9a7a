import Mathlib.Algebra.Group.Nat.Defs
import CppInOne.Lib.Coder

/-!
# Numbers of variable length

Seven bits to a byte, the lowest first; all bytes but the last have the high bit set. The
functions take the number of bytes that may follow the first.

## Main definitions

- `Varint.coder` — numbers of up to so many bytes
- `Varint.lengthDelimited` — a length and as many bytes

## Main results

- `Varint.coder_tight` — no number has an encoding shorter than the one that is written
- `Varint.size_mono` — a greater number has no shorter encoding
-/

namespace Varint

def write : Nat → Nat → List UInt8
  | 0, n => [.ofNat n]
  | k + 1, n => if n < 128 then [.ofNat n] else .ofNat (n % 128 + 128) :: write k (n / 128)

def read : Nat → List UInt8 → Option (Nat × List UInt8)
  | _, [] => none
  | 0, b :: bs => if b < 128 then some (b.toNat, bs) else none
  | k + 1, b :: bs =>
    if b < 128 then some (b.toNat, bs)
    else (read k bs).map fun x => (b.toNat - 128 + 128 * x.1, x.2)

def size : Nat → Nat → Nat
  | 0, _ => 1
  | k + 1, n => if n < 128 then 1 else 1 + size k (n / 128)

variable {k n : Nat} {bs rest : List UInt8}

theorem lt_128_iff (b : UInt8) : b < 128 ↔ b.toNat < 128 := UInt8.lt_iff_toNat_lt

theorem toNat_ofNat_of_lt (h : n < 256) : (UInt8.ofNat n).toNat = n := by
  rw [UInt8.toNat_ofNat']
  exact Nat.mod_eq_of_lt h

theorem size_eq (k n : Nat) : size k n = (write k n).length := by
  induction k generalizing n with
  | zero => rfl
  | succ k ih =>
    rw [size, write]
    split
    · rfl
    · rw [List.length_cons, ih, Nat.add_comm]

theorem read_write (h : n < 128 ^ (k + 1)) (rest : List UInt8) :
    read k (write k n ++ rest) = some (n, rest) := by
  induction k generalizing n with
  | zero =>
    have hn : n < 128 := by simpa using h
    have hbyte := toNat_ofNat_of_lt (n := n) (by omega)
    rw [write, List.singleton_append, read, if_pos (by rwa [lt_128_iff, hbyte]), hbyte]
  | succ k ih =>
    rw [write]
    split
    · next hn =>
      have hbyte := toNat_ofNat_of_lt (n := n) (by omega)
      rw [List.singleton_append, read, if_pos (by rwa [lt_128_iff, hbyte]), hbyte]
    · next hn =>
      have hbyte := toNat_ofNat_of_lt (n := n % 128 + 128) (by omega)
      have hdiv : n / 128 < 128 ^ (k + 1) := by
        rw [Nat.div_lt_iff_lt_mul (by decide), ← Nat.pow_succ]
        exact h
      rw [List.cons_append, read, if_neg (by rw [lt_128_iff, hbyte]; omega), ih hdiv, hbyte,
        Option.map_some]
      congr 2
      omega

/-- The first byte, and the rest of the number if there is one. -/
theorem read_cases (h : read k bs = some (n, rest)) :
    ∃ b bs', bs = b :: bs' ∧ ((b.toNat < 128 ∧ n = b.toNat ∧ rest = bs') ∨
      ∃ j m, k = j + 1 ∧ ¬ b.toNat < 128 ∧ read j bs' = some (m, rest) ∧
        n = b.toNat - 128 + 128 * m) := by
  cases bs with
  | nil => cases k <;> cases h
  | cons b bs =>
    refine ⟨b, bs, rfl, ?_⟩
    cases k with
    | zero =>
      rw [read] at h
      split at h
      · next hb =>
        obtain ⟨rfl, rfl⟩ := Prod.mk.inj (Option.some.inj h)
        exact .inl ⟨(lt_128_iff b).mp hb, rfl, rfl⟩
      · cases h
    | succ k =>
      rw [read] at h
      split at h
      · next hb =>
        obtain ⟨rfl, rfl⟩ := Prod.mk.inj (Option.some.inj h)
        exact .inl ⟨(lt_128_iff b).mp hb, rfl, rfl⟩
      · next hb =>
        obtain ⟨⟨m, left⟩, hread, heq⟩ := Option.map_eq_some_iff.mp h
        obtain ⟨rfl, rfl⟩ := Prod.mk.inj heq
        exact .inr ⟨k, m, rfl, fun hlt => hb ((lt_128_iff b).mpr hlt), hread, rfl⟩

theorem length_lt (h : read k bs = some (n, rest)) : rest.length < bs.length := by
  induction k generalizing bs n with
  | zero =>
    obtain ⟨b, bs, rfl, ⟨-, -, rfl⟩ | ⟨j, m, hj, -⟩⟩ := read_cases h
    · exact Nat.lt_succ_self _
    · cases hj
  | succ k ih =>
    obtain ⟨b, bs, rfl, ⟨-, -, rfl⟩ | ⟨j, m, hj, -, hread, -⟩⟩ := read_cases h
    · exact Nat.lt_succ_self _
    · obtain rfl := Nat.succ.inj hj
      exact (ih hread).trans (Nat.lt_succ_self _)

theorem read_append (h : read k bs = some (n, rest)) (cs : List UInt8) :
    read k (bs ++ cs) = some (n, rest ++ cs) := by
  induction k generalizing bs n with
  | zero =>
    obtain ⟨b, bs, rfl, ⟨hb, rfl, rfl⟩ | ⟨j, m, hj, -⟩⟩ := read_cases h
    · rw [List.cons_append, read, if_pos ((lt_128_iff b).mpr hb)]
    · cases hj
  | succ k ih =>
    obtain ⟨b, bs, rfl, ⟨hb, rfl, rfl⟩ | ⟨j, m, hj, hb, hread, rfl⟩⟩ := read_cases h
    · rw [List.cons_append, read, if_pos ((lt_128_iff b).mpr hb)]
    · obtain rfl := Nat.succ.inj hj
      rw [List.cons_append, read, if_neg fun hlt => hb ((lt_128_iff b).mp hlt), ih hread,
        Option.map_some]

/-- The low bits of a number are those of its first byte. -/
theorem read_mod {b : UInt8} (h : read k (b :: bs) = some (n, rest)) :
    n % 128 = b.toNat % 128 := by
  obtain ⟨b', bs', heq, ⟨-, rfl, -⟩ | ⟨j, m, -, hb, -, rfl⟩⟩ := read_cases h
  · obtain ⟨rfl, -⟩ := List.cons.inj heq
    rfl
  · obtain ⟨rfl, -⟩ := List.cons.inj heq
    have hlt := b.toNat_lt
    omega

theorem size_mono {m : Nat} (h : m ≤ n) : size k m ≤ size k n := by
  induction k generalizing m n with
  | zero => exact Nat.le_refl 1
  | succ k ih =>
    rw [size, size]
    have hdiv := ih (Nat.div_le_div_right (c := 128) h)
    split <;> split <;> omega

theorem size_le_of_read (h : read k bs = some (n, rest)) : size k n + rest.length ≤ bs.length := by
  induction k generalizing bs n with
  | zero =>
    have hlt := length_lt h
    rw [size]
    omega
  | succ k ih =>
    obtain ⟨b, bs, rfl, ⟨hb, rfl, rfl⟩ | ⟨j, m, hj, hb, hread, rfl⟩⟩ := read_cases h
    · rw [size, if_pos hb, List.length_cons, Nat.add_comm]
    · obtain rfl := Nat.succ.inj hj
      have hle := ih hread
      have hdiv : (b.toNat - 128 + 128 * m) / 128 = m := by
        have hlt := b.toNat_lt
        omega
      rw [size, hdiv, List.length_cons]
      split <;> omega

/-- Numbers of at most `k + 1` bytes. -/
def coder (k : Nat) : Coder UInt8 Nat where
  write := write k
  read := read k
  size := size k
  Domain n := n < 128 ^ (k + 1)
  read_write := read_write
  size_eq := size_eq k
  length_lt := length_lt
  read_append := read_append

theorem coder_tight (k : Nat) : (coder k).Tight := fun _ _ _ => size_le_of_read

/-! ## A length and as many bytes -/

variable {limit : Nat}

def readBytes (k limit : Nat) (bs : List UInt8) : Option (List UInt8 × List UInt8) :=
  (read k bs).bind fun x =>
    if x.1 < limit ∧ x.1 ≤ x.2.length then some (x.2.take x.1, x.2.drop x.1) else none

theorem readBytes_eq_some {b : List UInt8} :
    readBytes k limit bs = some (b, rest) ↔
      read k bs = some (b.length, b ++ rest) ∧ b.length < limit := by
  rw [readBytes, Option.bind_eq_some_iff]
  constructor
  · rintro ⟨⟨n, left⟩, hread, h⟩
    split at h
    · next hn =>
      obtain ⟨rfl, rfl⟩ := Prod.mk.inj (Option.some.inj h)
      rw [List.take_append_drop, List.length_take_of_le hn.2]
      exact ⟨hread, hn.1⟩
    · cases h
  · rintro ⟨hread, hlt⟩
    exact ⟨_, hread, by simp [hlt]⟩

/-- Strings shorter than the limit. -/
def lengthDelimited (k limit : Nat) (hlimit : limit ≤ 128 ^ (k + 1)) :
    Coder UInt8 (List UInt8) where
  write b := write k b.length ++ b
  read := readBytes k limit
  size b := size k b.length + b.length
  Domain b := b.length < limit
  read_write := by
    intro b hb rest
    rw [List.append_assoc]
    exact readBytes_eq_some.mpr ⟨read_write (hb.trans_le hlimit) _, hb⟩
  size_eq b := by rw [size_eq, List.length_append]
  length_lt := by
    intro bs b rest h
    have hlt := length_lt (readBytes_eq_some.mp h).1
    rw [List.length_append] at hlt
    omega
  read_append := by
    intro bs b rest h cs
    obtain ⟨hread, hlt⟩ := readBytes_eq_some.mp h
    refine readBytes_eq_some.mpr ⟨?_, hlt⟩
    rw [read_append hread, List.append_assoc]

theorem lengthDelimited_sound {hlimit : limit ≤ 128 ^ (k + 1)} :
    (lengthDelimited k limit hlimit).Sound := fun _ _ _ h => (readBytes_eq_some.mp h).2

theorem lengthDelimited_tight {hlimit : limit ≤ 128 ^ (k + 1)} :
    (lengthDelimited k limit hlimit).Tight := by
  intro bs b rest h
  have hle := size_le_of_read (readBytes_eq_some.mp h).1
  rw [List.length_append] at hle
  show size k b.length + b.length + rest.length ≤ bs.length
  omega

end Varint
