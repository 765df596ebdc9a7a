import Mathlib.Algebra.Group.Nat.Defs
import Mathlib.Data.Nat.Basic

/-!
# Memory as bytes

A memory gives every address its byte. A number in memory has its lowest byte first.

## Main definitions

- `load`, `store` — a number in some bytes
- `overlay` — a memory of which some bytes have changed
-/

namespace ByteMemory

abbrev Memory := Nat → UInt8

/-- The number in the `n` bytes from `a` on. -/
def load (mem : Memory) (a : Nat) : Nat → Nat
  | 0 => 0
  | n + 1 => (mem a).toNat + 256 * load mem (a + 1) n

/-- The lowest `n` bytes of a number are written from `a` on. -/
def store (mem : Memory) (a n v : Nat) : Memory := fun b =>
  if a ≤ b ∧ b < a + n then UInt8.ofNat (v / 256 ^ (b - a)) else mem b

/-- Where something has changed, the memory is as in `fill`. -/
def overlay (changed : Nat → Bool) (fill mem : Memory) : Memory := fun b =>
  if changed b then fill b else mem b

def loadWord (mem : Memory) (a : Nat) : UInt64 := UInt64.ofNat (load mem a 8)

def storeWord (mem : Memory) (a : Nat) (w : UInt64) : Memory := store mem a 8 w.toNat

variable {mem mem' : Memory} {a b n v : Nat}

theorem load_congr (h : ∀ b, a ≤ b → b < a + n → mem' b = mem b) :
    load mem' a n = load mem a n := by
  induction n generalizing a with
  | zero => rfl
  | succ n ih =>
    rw [load, load, h a (Nat.le_refl a) (Nat.lt_add_of_pos_right (Nat.succ_pos n)), ih]
    intro b hab hb
    exact h b (by omega) (by omega)

theorem store_of_outside (h : b < a ∨ a + n ≤ b) : store mem a n v b = mem b := by
  refine if_neg fun hin => ?_
  omega

theorem load_store_self (mem : Memory) (a n v : Nat) :
    load (store mem a n v) a n = v % 256 ^ n := by
  induction n generalizing mem a v with
  | zero => rw [load, Nat.pow_zero, Nat.mod_one]
  | succ n ih =>
    -- the rest is what a store of the higher bytes leaves
    have hrest : load (store mem a (n + 1) v) (a + 1) n =
        load (store mem (a + 1) n (v / 256)) (a + 1) n := by
      apply load_congr
      intro b hab hb
      obtain ⟨i, rfl⟩ := Nat.exists_eq_add_of_le hab
      have hin : a ≤ a + 1 + i ∧ a + 1 + i < a + (n + 1) := by omega
      have hsub : a + 1 + i - a = i + 1 := by omega
      simp only [store, hin, hab, hb, and_self, if_true, hsub, Nat.add_sub_cancel_left]
      rw [Nat.pow_succ', Nat.div_div_eq_div_mul]
    have hfirst : (store mem a (n + 1) v a).toNat = v % 256 := by
      have hin : a ≤ a ∧ a < a + (n + 1) := by omega
      simp [store, hin]
    rw [load, hrest, ih, hfirst, Nat.pow_succ', Nat.mod_mul]

theorem loadWord_congr (h : ∀ b, a ≤ b → b < a + 8 → mem' b = mem b) :
    loadWord mem' a = loadWord mem a :=
  congrArg UInt64.ofNat (load_congr h)

theorem loadWord_storeWord_self (mem : Memory) (a : Nat) (w : UInt64) :
    loadWord (storeWord mem a w) a = w := by
  have hlt : w.toNat < 256 ^ 8 := Nat.lt_of_lt_of_eq w.toNat_lt (by decide)
  rw [loadWord, storeWord, load_store_self, Nat.mod_eq_of_lt hlt, UInt64.ofNat_toNat]

theorem storeWord_of_outside {w : UInt64} (h : b < a ∨ a + 8 ≤ b) :
    storeWord mem a w b = mem b :=
  store_of_outside h

theorem loadWord_storeWord_of_outside {w : UInt64} {c : Nat} (h : c + 8 ≤ a ∨ a + 8 ≤ c) :
    loadWord (storeWord mem a w) c = loadWord mem c := by
  apply loadWord_congr
  intro b hcb hb
  apply storeWord_of_outside
  omega

theorem overlay_of_not {changed : Nat → Bool} {fill : Memory} (h : changed b = false) :
    overlay changed fill mem b = mem b := by
  simp [overlay, h]

end ByteMemory
