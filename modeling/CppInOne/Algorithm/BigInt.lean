import Mathlib.Data.List.GetD
import CppInOne.Lib.DecimalText

/-!
# Numbers as decimal texts

`BigInt` adds and subtracts texts of digits from their ends to their fronts, with a flag for the
carry or the borrow. The text of a result is built with the lowest digit first.
-/

namespace CppInOne.Algorithm
open ByteString

abbrev Bytes := List UInt8

structure BigInt where
  stringDict : Bytes
  deriving DecidableEq, Repr

namespace BigInt

/-! ## Conversions -/

/-- A `char`, which is signed, as an `int`. -/
def toInt (c : UInt8) : Int := c.toInt8.toInt

def toChar (n : Int) : UInt8 := .ofInt n

/-- `s[i]` as an `int` -/
def charAt (s : Bytes) (i : Nat) : Int := toInt (s.getD i 0)

/-- How often a loop from `int i = s.length() - 1` down to 0 runs. -/
def positions (s : Bytes) : Nat := (Int.bmod ((s.length : Int) - 1) (2 ^ 32) + 1).toNat

/-! ## The operators -/

/-- The digit that is appended for the sum `ret` of two digits, and the new flag. -/
def carryStep (ret : Int) (flag : Bool) : UInt8 × Bool :=
  let ret := if flag then ret + 1 else ret
  if ret ≥ 10 then (toChar (ret % 10 + 0x30), true) else (toChar (ret + 0x30), false)

/-- The loop over both texts. Here and below `i` and `j` are greater by one than in the source. -/
def addBoth (lhs rhs : Bytes) : Nat → Nat → Bool → Bytes → Nat × Nat × Bool × Bytes
  | i + 1, j + 1, flag, result =>
    let ret := charAt lhs i - 0x30 + charAt rhs j - 0x30
    let (c, flag) := carryStep ret flag
    addBoth lhs rhs i j flag (result ++ [c])
  | i, j, flag, result => (i, j, flag, result)

/-- The loop over what is left of one text. -/
def addRest (s : Bytes) : Nat → Bool → Bytes → Bool × Bytes
  | 0, flag, result => (flag, result)
  | i + 1, flag, result =>
    let ret := charAt s i - 0x30
    let (c, flag) := carryStep ret flag
    addRest s i flag (result ++ [c])

def add (lhs rhs : BigInt) : BigInt :=
  let (i, j, flag, result) := addBoth lhs.stringDict rhs.stringDict
    (positions lhs.stringDict) (positions rhs.stringDict) false []
  let (flag, result) := addRest lhs.stringDict i flag result
  let (flag, result) := addRest rhs.stringDict j flag result
  let result := if flag then result ++ [0x31] else result
  ⟨result.reverse⟩

instance : Add BigInt := ⟨add⟩

/-- The digit that is appended for the difference `ret` of two digits, and the new flag. -/
def borrowStep (ret : Int) (flag : Bool) : UInt8 × Bool :=
  let ret := if flag then ret - 1 else ret
  if ret < 0 then (toChar (ret + 10 + 0x30), true) else (toChar (ret + 0x30), false)

def subBoth (MaxStr MinStr : Bytes) : Nat → Nat → Bool → Bytes → Nat × Nat × Bool × Bytes
  | i + 1, j + 1, flag, result =>
    let ret := charAt MaxStr i - charAt MinStr j
    let (c, flag) := borrowStep ret flag
    subBoth MaxStr MinStr i j flag (result ++ [c])
  | i, j, flag, result => (i, j, flag, result)

def subRest (MaxStr : Bytes) : Nat → Bool → Bytes → Bool × Bytes
  | 0, flag, result => (flag, result)
  | i + 1, flag, result =>
    let ret := charAt MaxStr i - 0x30
    let (c, flag) := borrowStep ret flag
    subRest MaxStr i flag (result ++ [c])

/-- The part of `operator-` after the operands have been put in order. The sign comes last in the
text; the `reverse` behind it is commented out. -/
def difference (MaxStr MinStr : Bytes) (minor : Bool) : Bytes :=
  let (i, _, flag, result) := subBoth MaxStr MinStr (positions MaxStr) (positions MinStr) false []
  let (_, result) := subRest MaxStr i flag result
  let retStr := result.reverse.dropWhile (· == 0x30)
  if minor then retStr ++ [0x2d] else retStr

def sub (lhs rhs : BigInt) : BigInt :=
  if lhs.stringDict.length < rhs.stringDict.length then
    ⟨difference rhs.stringDict lhs.stringDict true⟩
  else if lhs.stringDict.length = rhs.stringDict.length then
    if lhs.stringDict < rhs.stringDict then ⟨difference rhs.stringDict lhs.stringDict true⟩
    else if lhs.stringDict = rhs.stringDict then ⟨ascii "0"⟩
    else ⟨difference lhs.stringDict rhs.stringDict false⟩
  else ⟨difference lhs.stringDict rhs.stringDict false⟩

instance : Sub BigInt := ⟨sub⟩

example : BigInt.mk (ascii "12") + ⟨ascii "123"⟩ = ⟨ascii "135"⟩ := by decide +kernel

example : BigInt.mk (ascii "123") - ⟨ascii "120"⟩ = ⟨ascii "3"⟩ := by decide +kernel

/-! ## One digit -/

theorem positions_eq {s : Bytes} (hs : s.length ≤ 2 ^ 31) : positions s = s.length := by
  rw [positions, Int.bmod_eq_of_le (by omega) (by omega)]
  omega

theorem toInt_of_isDigit {c : UInt8} (hc : isDigit c = true) : toInt c = digit c + 48 := by
  rw [isDigit, decide_eq_true_eq, UInt8.le_iff_toNat_le, UInt8.le_iff_toNat_le] at hc
  have hlow : 48 ≤ c.toNat := hc.1
  have hhigh : c.toNat ≤ 57 := hc.2
  have hsigned : toInt c = (c.toNat : Int) := by
    show c.toBitVec.toInt = _
    rw [BitVec.toInt_eq_toNat_of_lt]
    · rfl
    · show 2 * c.toNat < 2 ^ 8
      omega
  rw [hsigned, digit]
  omega

theorem toChar_digit {d : Nat} (hd : d < 10) : toChar ((d : Int) + 0x30) = digitChar d := by
  rw [toChar, digitChar]
  interval_cases d <;> rfl

theorem carryStep_eq (x y : Nat) (flag : Bool) :
    carryStep ((x : Int) + y) flag =
      (digitChar (Numeral.sumDigit 10 x y flag), Numeral.sumCarry 10 x y flag) := by
  have hret : (if flag then (x : Int) + y + 1 else x + y) = (x + y + flag.toNat : Nat) := by
    cases flag <;> simp
  simp only [carryStep, hret, Numeral.sumDigit, Numeral.sumCarry]
  have hlt : (x + y + flag.toNat) % 10 < 10 := Nat.mod_lt _ (by omega)
  split
  · next h =>
    rw [decide_eq_true (by omega), ← toChar_digit hlt]
    rfl
  · next h =>
    rw [decide_eq_false (by omega), ← toChar_digit hlt, Nat.mod_eq_of_lt (by omega)]

theorem borrowStep_eq {x y : Nat} (hx : x < 10) (hy : y < 10) (flag : Bool) :
    borrowStep ((x : Int) - y) flag =
      (digitChar (Numeral.diffDigit 10 x y flag), Numeral.diffBorrow x y flag) := by
  have hret : (if flag then (x : Int) - y - 1 else x - y) = (x : Int) - (y + flag.toNat : Nat) := by
    cases flag <;> simp [sub_sub]
  have hflag : flag.toNat ≤ 1 := Bool.toNat_le flag
  have hlt := Numeral.diffDigit_lt y flag hx
  simp only [borrowStep, hret]
  rw [← toChar_digit hlt, Numeral.diffDigit, Numeral.diffBorrow]
  split
  · next h =>
    have h' : x < y + flag.toNat := by omega
    rw [decide_eq_true h', if_pos rfl]
    congr 2
    omega
  · next h =>
    have h' : ¬ x < y + flag.toNat := by omega
    rw [decide_eq_false h', if_neg (by simp)]
    congr 2
    omega

/-! ## The loops -/

/-- The digits at the first `i` positions, the last of them first. -/
def low (s : Bytes) (i : Nat) : List Nat := digitList (s.take i)

theorem low_length (s : Bytes) : low s s.length = digitList s := by rw [low, List.take_length]

section Loops

variable {s : Bytes} (hs : ∀ c ∈ s, isDigit c = true)
include hs

theorem charAt_eq {i : Nat} (hi : i < s.length) : charAt s i = digit (s.getD i 0) + 48 := by
  apply toInt_of_isDigit
  rw [List.getD_eq_getElem _ _ hi]
  exact hs _ (List.getElem_mem hi)

theorem digit_getD_lt {i : Nat} (hi : i < s.length) : digit (s.getD i 0) < 10 := by
  rw [List.getD_eq_getElem _ _ hi]
  exact digit_lt (hs _ (List.getElem_mem hi))

omit hs in
theorem low_succ {i : Nat} (hi : i < s.length) : low s (i + 1) = digit (s.getD i 0) :: low s i := by
  rw [low, low, digitList, digitList, List.getD_eq_getElem _ _ hi, List.take_add_one,
    List.getElem?_eq_getElem hi, Option.toList_some, List.reverse_append]
  rfl

/-- The loop appends the digits of the sum as long as both texts last. -/
theorem addBoth_eq {t : Bytes} (ht : ∀ c ∈ t, isDigit c = true) {i j : Nat} (hi : i ≤ s.length)
    (hj : j ≤ t.length) (flag : Bool) (result : Bytes) :
    ∃ i' j' flag' ds, addBoth s t i j flag result = (i', j', flag', result ++ ds.map digitChar) ∧
      (i' = 0 ∨ j' = 0) ∧ i' ≤ i ∧ j' ≤ j ∧
      Numeral.addCarry 10 flag (low s i) (low t j) =
        ds ++ Numeral.addCarry 10 flag' (low s i') (low t j') := by
  induction i generalizing j flag result with
  | zero => exact ⟨0, j, flag, [], by simp [addBoth], Or.inl rfl, Nat.le_refl _, Nat.le_refl _, rfl⟩
  | succ i ih =>
    cases j with
    | zero =>
      exact ⟨i + 1, 0, flag, [], by simp [addBoth], Or.inr rfl, Nat.le_refl _, Nat.le_refl _, rfl⟩
    | succ j =>
      have hx := digit_getD_lt hs hi
      have hy := digit_getD_lt ht hj
      have hret : charAt s i - 0x30 + charAt t j - 0x30 =
          (digit (s.getD i 0) : Int) + digit (t.getD j 0) := by
        rw [charAt_eq hs hi, charAt_eq ht hj]
        omega
      obtain ⟨i', j', flag', ds, heq, hend, hi', hj', hsum⟩ := ih (Nat.le_of_succ_le hi)
        (Nat.le_of_succ_le hj) (Numeral.sumCarry 10 (digit (s.getD i 0)) (digit (t.getD j 0)) flag)
        (result ++ [digitChar (Numeral.sumDigit 10 (digit (s.getD i 0)) (digit (t.getD j 0)) flag)])
      refine ⟨i', j', flag',
        Numeral.sumDigit 10 (digit (s.getD i 0)) (digit (t.getD j 0)) flag :: ds, ?_, hend,
        Nat.le_succ_of_le hi', Nat.le_succ_of_le hj', ?_⟩
      · simp only [addBoth, hret, carryStep_eq, heq, List.map_cons, List.append_assoc,
          List.singleton_append]
      · rw [low_succ hi, low_succ hj, Numeral.addCarry, hsum, List.cons_append]

theorem addRest_eq {i : Nat} (hi : i ≤ s.length) (flag : Bool) (result : Bytes) :
    ∃ flag' ds, addRest s i flag result = (flag', result ++ ds.map digitChar) ∧
      Numeral.addCarry 10 flag (low s i) [] = ds ++ Numeral.addCarry 10 flag' [] [] := by
  induction i generalizing flag result with
  | zero => exact ⟨flag, [], by simp [addRest], rfl⟩
  | succ i ih =>
    have hx := digit_getD_lt hs hi
    have hret : charAt s i - 0x30 = (digit (s.getD i 0) : Int) + (0 : Nat) := by
      rw [charAt_eq hs hi]
      omega
    obtain ⟨flag', ds, heq, hsum⟩ := ih (Nat.le_of_succ_le hi)
      (Numeral.sumCarry 10 (digit (s.getD i 0)) 0 flag)
      (result ++ [digitChar (Numeral.sumDigit 10 (digit (s.getD i 0)) 0 flag)])
    refine ⟨flag', Numeral.sumDigit 10 (digit (s.getD i 0)) 0 flag :: ds, ?_, ?_⟩
    · simp only [addRest, hret, carryStep_eq, heq, List.map_cons,
        List.append_assoc, List.singleton_append]
    · simp only [low_succ hi, Numeral.addCarry, hsum, List.cons_append]

theorem subBoth_eq {t : Bytes} (ht : ∀ c ∈ t, isDigit c = true) {i j : Nat} (hi : i ≤ s.length)
    (hj : j ≤ t.length) (hji : j ≤ i) (flag : Bool) (result : Bytes) :
    ∃ i' flag' ds, subBoth s t i j flag result = (i', 0, flag', result ++ ds.map digitChar) ∧
      i' ≤ i ∧ Numeral.subBorrow 10 flag (low s i) (low t j) =
        ds ++ Numeral.subBorrow 10 flag' (low s i') [] := by
  induction j generalizing i flag result with
  | zero => exact ⟨i, flag, [], by simp [subBoth], Nat.le_refl _, rfl⟩
  | succ j ih =>
    cases i with
    | zero => omega
    | succ i =>
      have hx := digit_getD_lt hs hi
      have hy := digit_getD_lt ht hj
      have hret : charAt s i - charAt t j = (digit (s.getD i 0) : Int) - digit (t.getD j 0) := by
        rw [charAt_eq hs hi, charAt_eq ht hj]
        omega
      obtain ⟨i', flag', ds, heq, hi', hdiff⟩ := ih (Nat.le_of_succ_le hi) (Nat.le_of_succ_le hj)
        (Nat.le_of_succ_le_succ hji)
        (Numeral.diffBorrow (digit (s.getD i 0)) (digit (t.getD j 0)) flag)
        (result ++
          [digitChar (Numeral.diffDigit 10 (digit (s.getD i 0)) (digit (t.getD j 0)) flag)])
      refine ⟨i', flag', Numeral.diffDigit 10 (digit (s.getD i 0)) (digit (t.getD j 0)) flag :: ds,
        ?_, Nat.le_succ_of_le hi', ?_⟩
      · simp only [subBoth, hret, borrowStep_eq hx hy, heq, List.map_cons, List.append_assoc,
          List.singleton_append]
      · rw [low_succ hi, low_succ hj, Numeral.subBorrow, hdiff, List.cons_append]

theorem subRest_eq {i : Nat} (hi : i ≤ s.length) (flag : Bool) (result : Bytes) :
    ∃ flag', subRest s i flag result =
      (flag', result ++ (Numeral.subBorrow 10 flag (low s i) []).map digitChar) := by
  induction i generalizing flag result with
  | zero => exact ⟨flag, by simp [subRest, low, digitList, Numeral.subBorrow]⟩
  | succ i ih =>
    have hx := digit_getD_lt hs hi
    have hret : charAt s i - 0x30 = (digit (s.getD i 0) : Int) - (0 : Nat) := by
      rw [charAt_eq hs hi]
      omega
    obtain ⟨flag', heq⟩ := ih (Nat.le_of_succ_le hi)
      (Numeral.diffBorrow (digit (s.getD i 0)) 0 flag)
      (result ++ [digitChar (Numeral.diffDigit 10 (digit (s.getD i 0)) 0 flag)])
    refine ⟨flag', ?_⟩
    rw [low_succ hi, Numeral.subBorrow]
    simp only [subRest, hret, borrowStep_eq hx (by omega : (0 : Nat) < 10), heq, List.map_cons,
      List.append_assoc, List.singleton_append]

end Loops

end BigInt

end CppInOne.Algorithm
