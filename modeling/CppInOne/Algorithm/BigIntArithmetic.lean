import CppInOne.Algorithm.BigInt

/-!
# What the operators of `BigInt` compute

The loops of `operator+` and `operator-` compute the digits of the sum and of the difference. The
result of a subtraction has its sign behind the digits.

## Main results

- `add_correct` — the value of a sum, and its form
- `sub_eq_decimal_iff` — a difference is right when it is not negative, and only then
- `add_then_sub` — subtraction undoes addition
-/

namespace CppInOne.Algorithm.BigInt
open ByteString

variable {a b : Bytes}

/-! ## Sums -/

/-- The text of a list of digits, the lowest first. -/
def textOf (ds : List Nat) : Bytes := (ds.map digitChar).reverse

section Text

variable {ds : List Nat} (hds : ∀ d ∈ ds, d < 10)
include hds

theorem digitList_textOf : digitList (textOf ds) = ds := by
  rw [digitList, textOf, List.reverse_reverse, List.map_map]
  conv_rhs => rw [← List.map_id ds]
  exact List.map_congr_left fun d hd => digit_digitChar (hds d hd)

theorem isDigit_of_mem_textOf : ∀ c ∈ textOf ds, isDigit c = true := by
  intro c hc
  obtain ⟨d, hd, rfl⟩ := List.mem_map.mp (List.mem_reverse.mp hc)
  exact isDigit_digitChar (hds d hd)

theorem digitsValue_textOf : digitsValue (textOf ds) = Nat.ofDigits 10 ds := by
  rw [digitsValue_eq_ofDigits, digitList_textOf hds]

end Text

/-- The three loops and the final carry compute one sum. -/
theorem add_eq (ha : ∀ c ∈ a, isDigit c = true) (hb : ∀ c ∈ b, isDigit c = true)
    (hla : a.length ≤ 2 ^ 31) (hlb : b.length ≤ 2 ^ 31) :
    (BigInt.mk a + ⟨b⟩).stringDict =
      textOf (Numeral.addCarry 10 false (digitList a) (digitList b)) := by
  obtain ⟨i, j, flag₁, ds₁, hboth, hend, hi, hj, hsum₁⟩ :=
    addBoth_eq ha hb (Nat.le_refl a.length) (Nat.le_refl b.length) false []
  obtain ⟨flag₂, ds₂, hrest₁, hsum₂⟩ :=
    addRest_eq ha hi flag₁ ([] ++ ds₁.map digitChar)
  obtain ⟨flag₃, ds₃, hrest₂, hsum₃⟩ :=
    addRest_eq hb hj flag₂ (([] ++ ds₁.map digitChar) ++ ds₂.map digitChar)
  have hnil : ∀ s : Bytes, low s 0 = [] := fun s => rfl
  -- one of the two texts has come to its end, so only one of the two later loops appends digits
  have hrest : Numeral.addCarry 10 flag₁ (low a i) (low b j) =
      ds₂ ++ ds₃ ++ Numeral.addCarry 10 flag₃ [] [] := by
    obtain rfl | rfl := hend
    · have hnone : ds₂ = [] ∧ flag₂ = flag₁ := by
        have hds : ([] : Bytes) ++ ds₁.map digitChar =
            ([] ++ ds₁.map digitChar) ++ ds₂.map digitChar ∧ flag₁ = flag₂ := by
          simpa [addRest, and_comm] using hrest₁
        simpa [eq_comm] using hds
      obtain ⟨rfl, rfl⟩ := hnone
      rw [hnil, Numeral.addCarry_comm, hsum₃, List.nil_append]
    · have hnone : ds₃ = [] ∧ flag₃ = flag₂ := by
        have hds : flag₂ = flag₃ ∧ ds₃ = [] := by
          simpa [addRest] using hrest₂
        exact ⟨hds.2, hds.1.symm⟩
      obtain ⟨rfl, rfl⟩ := hnone
      rw [hnil, hsum₂, List.append_nil]
  rw [low_length, low_length] at hsum₁
  show (add ⟨a⟩ ⟨b⟩).stringDict = _
  simp only [add, positions_eq hla, positions_eq hlb, hboth, hrest₁, hrest₂, textOf, hsum₁, hrest]
  cases flag₃ <;> simp [Numeral.addCarry, digitChar]

theorem length_digitList (s : Bytes) : (digitList s).length = s.length := by simp [digitList]

theorem isDigit_add (ha : ∀ c ∈ a, isDigit c = true) (hb : ∀ c ∈ b, isDigit c = true)
    (hla : a.length ≤ 2 ^ 31) (hlb : b.length ≤ 2 ^ 31) :
    ∀ c ∈ (BigInt.mk a + ⟨b⟩).stringDict, isDigit c = true := by
  rw [add_eq ha hb hla hlb]
  exact isDigit_of_mem_textOf fun d hd => Numeral.lt_of_mem_addCarry (by omega) hd

theorem digitsValue_add (ha : ∀ c ∈ a, isDigit c = true) (hb : ∀ c ∈ b, isDigit c = true)
    (hla : a.length ≤ 2 ^ 31) (hlb : b.length ≤ 2 ^ 31) :
    digitsValue (BigInt.mk a + ⟨b⟩).stringDict = digitsValue a + digitsValue b := by
  have hdigits : ∀ d ∈ Numeral.addCarry 10 false (digitList a) (digitList b), d < 10 :=
    fun d hd => Numeral.lt_of_mem_addCarry (by omega) hd
  rw [add_eq ha hb hla hlb, digitsValue_textOf hdigits, Numeral.ofDigits_addCarry (by omega)
    (fun d hd => lt_of_mem_digitList ha hd) (fun d hd => lt_of_mem_digitList hb hd),
    digitsValue_eq_ofDigits, digitsValue_eq_ofDigits]
  rfl

theorem length_add (ha : ∀ c ∈ a, isDigit c = true) (hb : ∀ c ∈ b, isDigit c = true)
    (hla : a.length ≤ 2 ^ 31) (hlb : b.length ≤ 2 ^ 31) :
    (BigInt.mk a + ⟨b⟩).stringDict.length = max a.length b.length ∨
      (BigInt.mk a + ⟨b⟩).stringDict.head? = some 0x31 ∧
        (BigInt.mk a + ⟨b⟩).stringDict.length = max a.length b.length + 1 := by
  obtain ⟨ds, hlen, hds⟩ := Numeral.addCarry_cases (b := 10) false (digitList a) (digitList b)
  rw [length_digitList, length_digitList] at hlen
  rw [add_eq ha hb hla hlb, textOf]
  obtain hds | hds := hds
  · rw [hds]
    exact Or.inl (by simpa using hlen)
  · rw [hds]
    exact Or.inr ⟨by simp [digitChar], by simpa using hlen⟩

/-- The sum of two numerals has no superfluous zero in front: either the carry stands there, or its
value is too large for a zero at this place. -/
theorem isNumeral_add (ha : IsNumeral a) (hb : IsNumeral b) (hla : a.length ≤ 2 ^ 31)
    (hlb : b.length ≤ 2 ^ 31) : IsNumeral (BigInt.mk a + ⟨b⟩).stringDict := by
  have hvalue := digitsValue_add ha.digits hb.digits hla hlb
  have hdigits := isDigit_add ha.digits hb.digits hla hlb
  have hlen := length_add ha.digits hb.digits hla hlb
  generalize (BigInt.mk a + ⟨b⟩).stringDict = s at hvalue hdigits hlen ⊢
  have hposa := List.length_pos_iff.mpr ha.nonempty
  obtain hlen | ⟨hone, -⟩ := hlen
  · refine isNumeral_of_pow_le ?_ hdigits fun htwo => ?_
    · rintro rfl
      rw [List.length_nil] at hlen
      omega
    · rw [hlen, hvalue]
      obtain hle | hle := Nat.le_total a.length b.length
      · have hpow := hb.pow_le (by omega)
        rw [Nat.max_eq_right hle]
        omega
      · have hpow := ha.pow_le (by omega)
        rw [Nat.max_eq_left hle]
        omega
  · refine ⟨?_, hdigits, fun hzero => ?_⟩
    · rintro rfl
      cases hone
    · rw [hone] at hzero
      exact absurd (Option.some.inj hzero) (by decide)

/-- **The text of a sum is made of digits and has the value of the sum; for operands without
superfluous zeros it has none.** -/
theorem add_correct (ha : ∀ c ∈ a, isDigit c = true) (hb : ∀ c ∈ b, isDigit c = true)
    (hla : a.length < 2 ^ 31 - 1) (hlb : b.length < 2 ^ 31 - 1) :
    (∀ c ∈ (BigInt.mk a + ⟨b⟩).stringDict, isDigit c = true) ∧
      digitsValue (BigInt.mk a + ⟨b⟩).stringDict = digitsValue a + digitsValue b ∧
      (IsNumeral a → IsNumeral b → IsNumeral (BigInt.mk a + ⟨b⟩).stringDict) :=
  ⟨isDigit_add ha hb (by omega) (by omega), digitsValue_add ha hb (by omega) (by omega),
    fun ha hb => isNumeral_add ha hb (by omega) (by omega)⟩

/-- A carry through all digits. -/
theorem add_correct_carry :
    (∀ c ∈ (BigInt.mk (ascii "999") + ⟨ascii "1"⟩).stringDict, isDigit c = true) ∧
      digitsValue (BigInt.mk (ascii "999") + ⟨ascii "1"⟩).stringDict =
        digitsValue (ascii "999") + digitsValue (ascii "1") ∧
      (IsNumeral (ascii "999") → IsNumeral (ascii "1") →
        IsNumeral (BigInt.mk (ascii "999") + ⟨ascii "1"⟩).stringDict) :=
  add_correct (by decide +kernel) (by decide +kernel) (by decide) (by decide)

/-! ## Differences -/

theorem digitsValue_dropWhile (s : Bytes) :
    digitsValue (s.dropWhile (· == 0x30)) = digitsValue s := by
  induction s with
  | nil => rfl
  | cons c s ih =>
    by_cases hc : c = 0x30
    · subst hc
      rw [List.dropWhile_cons_of_pos (by simp), ih, digitsValue_cons]
      simp [digit]
    · rw [List.dropWhile_cons_of_neg (by simpa using hc)]

/-- What is left when the zeros in front are dropped. -/
theorem isNumeral_dropWhile {s : Bytes} (hs : ∀ c ∈ s, isDigit c = true)
    (hpos : 0 < digitsValue s) : IsNumeral (s.dropWhile (· == 0x30)) where
  nonempty := by
    intro hnil
    rw [← digitsValue_dropWhile, hnil] at hpos
    exact absurd hpos (by decide)
  digits c hc := hs c ((List.dropWhile_sublist _).subset hc)
  front hzero := by
    have hhead := List.head?_dropWhile_not (· == 0x30) s
    rw [hzero] at hhead
    simp at hhead

/-- The larger operand comes first; the difference is written without superfluous zeros. -/
theorem difference_eq (ha : ∀ c ∈ a, isDigit c = true) (hb : ∀ c ∈ b, isDigit c = true)
    (hla : a.length ≤ 2 ^ 31) (hlen : b.length ≤ a.length) (hlt : digitsValue b < digitsValue a)
    (minor : Bool) :
    difference a b minor =
      decimal (digitsValue a - digitsValue b : Nat) ++ if minor then [0x2d] else [] := by
  obtain ⟨i, flag₁, ds, hboth, hi, hdiff⟩ :=
    subBoth_eq ha hb (Nat.le_refl a.length) (Nat.le_refl b.length) hlen false []
  obtain ⟨flag₂, hrest⟩ := subRest_eq ha hi flag₁ ([] ++ ds.map digitChar)
  rw [low_length, low_length] at hdiff
  have hxs : ∀ d ∈ digitList a, d < 10 := fun d hd => lt_of_mem_digitList ha hd
  have hys : ∀ d ∈ digitList b, d < 10 := fun d hd => lt_of_mem_digitList hb hd
  have hdigits : ∀ d ∈ Numeral.subBorrow 10 false (digitList a) (digitList b), d < 10 :=
    fun d hd => Numeral.lt_of_mem_subBorrow hxs hd
  have htext : ([] ++ ds.map digitChar ++
      (Numeral.subBorrow 10 flag₁ (low a i) []).map digitChar).reverse =
        textOf (Numeral.subBorrow 10 false (digitList a) (digitList b)) := by
    rw [textOf, hdiff, List.nil_append, List.map_append]
  have hvalue : digitsValue (textOf (Numeral.subBorrow 10 false (digitList a) (digitList b))) =
      digitsValue a - digitsValue b := by
    have hsum := Numeral.ofDigits_subBorrow false (by omega) hxs hys
      (by rwa [length_digitList, length_digitList])
      (by rw [← digitsValue_eq_ofDigits, ← digitsValue_eq_ofDigits, Bool.toNat_false]; omega)
    rw [← digitsValue_eq_ofDigits, ← digitsValue_eq_ofDigits, Bool.toNat_false] at hsum
    rw [digitsValue_textOf hdigits]
    omega
  have hnumeral := isNumeral_dropWhile (isDigit_of_mem_textOf hdigits) (by rw [hvalue]; omega)
  have hret := hnumeral.eq_decimal
  rw [digitsValue_dropWhile, hvalue] at hret
  simp only [difference, positions_eq hla, positions_eq (hlen.trans hla), hboth, hrest, htext, hret]
  cases minor <;> simp

/-- What a subtraction returns: the sign stands behind the digits. -/
theorem sub_eq (ha : IsNumeral a) (hb : IsNumeral b) (hla : a.length ≤ 2 ^ 31)
    (hlb : b.length ≤ 2 ^ 31) :
    (BigInt.mk a - ⟨b⟩).stringDict =
      if digitsValue a < digitsValue b then
        decimal (digitsValue b - digitsValue a : Nat) ++ [0x2d]
      else decimal (digitsValue a - digitsValue b : Nat) := by
  show (sub ⟨a⟩ ⟨b⟩).stringDict = _
  simp only [sub]
  split
  · next hlen =>
    have hlt := ha.lt_of_length_lt hb hlen
    rw [difference_eq hb.digits ha.digits hlb (Nat.le_of_lt hlen) hlt, if_pos hlt]
    rfl
  · split
    · next hlen =>
      have hiff := digitsValue_lt_iff ha.digits hb.digits hlen
      split
      · next hlex =>
        have hlt := hiff.mpr hlex
        rw [difference_eq hb.digits ha.digits hlb (Nat.le_of_eq hlen) hlt, if_pos hlt]
        rfl
      · next hlex =>
        split
        · next heq =>
          subst heq
          rw [if_neg (Nat.lt_irrefl _), Nat.sub_self]
          rfl
        · next hne =>
          have hvalue : digitsValue a ≠ digitsValue b := fun h => hne (ha.eq_of_digitsValue hb h)
          have hnot := mt hiff.mp hlex
          have hlt : digitsValue b < digitsValue a := by omega
          rw [difference_eq ha.digits hb.digits hla (Nat.le_of_eq hlen.symm) hlt,
            if_neg (Nat.lt_asymm hlt)]
          exact List.append_nil _
    · next hlen hne =>
      have hlt := hb.lt_of_length_lt ha (by omega)
      rw [difference_eq ha.digits hb.digits hla (by omega) hlt, if_neg (Nat.lt_asymm hlt)]
      exact List.append_nil _

/-- **A difference is the numeral of the integer exactly when it is not negative.** -/
theorem sub_eq_decimal_iff (ha : IsNumeral a) (hb : IsNumeral b) (hla : a.length < 2 ^ 31 - 1)
    (hlb : b.length < 2 ^ 31 - 1) :
    (BigInt.mk a - ⟨b⟩).stringDict = decimal ((digitsValue a : Int) - digitsValue b) ↔
      digitsValue b ≤ digitsValue a := by
  rw [sub_eq ha hb (by omega) (by omega)]
  by_cases hlt : digitsValue a < digitsValue b
  · rw [if_pos hlt]
    refine iff_of_false (fun heq => ?_) (Nat.not_le.mpr hlt)
    -- the sign of the numeral comes first, the text starts with a digit
    obtain ⟨k, hk⟩ : ∃ k : Nat, digitsValue b - digitsValue a = k + 1 :=
      Nat.exists_eq_succ_of_ne_zero (by omega)
    have hneg : (digitsValue a : Int) - digitsValue b = Int.negSucc k := by omega
    have hsign : decimal (Int.negSucc k) = 0x2d :: decimal (k + 1 : Nat) := by
      show ascii ("-" ++ Nat.repr (k + 1)) = 0x2d :: ascii (Nat.repr (k + 1))
      rw [ascii, String.toList_append, List.map_append]
      rfl
    rw [hneg, hsign, hk] at heq
    obtain ⟨c, t, hct⟩ := List.exists_cons_of_ne_nil (l := decimal (k + 1 : Nat)) (by
      rw [decimal_natCast]
      simp [Nat.toDigits_ne_nil])
    have hdigit : isDigit c = true := isDigit_of_mem_decimal (k := k + 1) (by
      rw [hct]
      exact List.mem_cons_self)
    rw [hct, List.cons_append] at heq
    rw [(List.cons.inj heq).1] at hdigit
    exact absurd hdigit (by decide)
  · rw [if_neg hlt]
    refine iff_of_true ?_ (Nat.not_lt.mp hlt)
    congr 1
    omega

theorem sub_eq_decimal_iff_borrow :
    (BigInt.mk (ascii "1000") - ⟨ascii "1"⟩).stringDict =
        decimal ((digitsValue (ascii "1000") : Int) - digitsValue (ascii "1")) ↔
      digitsValue (ascii "1") ≤ digitsValue (ascii "1000") :=
  sub_eq_decimal_iff (by decide +kernel) (by decide +kernel) (by decide) (by decide)

/-- 12 - 123 is printed as 111-. -/
theorem sub_sign_last :
    (BigInt.mk (ascii "12") - ⟨ascii "123"⟩).stringDict = ascii "111-" ∧
      (BigInt.mk (ascii "12") - ⟨ascii "123"⟩).stringDict ≠
        decimal ((digitsValue (ascii "12") : Int) - digitsValue (ascii "123")) := by
  decide +kernel

/-! ## Both operators -/

/-- **Subtraction undoes addition.** -/
theorem add_then_sub (ha : IsNumeral a) (hb : IsNumeral b) (hla : a.length < 2 ^ 31 - 1)
    (hlb : b.length < 2 ^ 31 - 1) : (BigInt.mk a + ⟨b⟩) - ⟨b⟩ = ⟨a⟩ := by
  have hvalue := digitsValue_add ha.digits hb.digits (by omega) (by omega)
  have hnumeral := isNumeral_add ha hb (by omega) (by omega)
  have hlen : (BigInt.mk a + ⟨b⟩).stringDict.length ≤ 2 ^ 31 := by
    obtain hlen | ⟨-, hlen⟩ := length_add ha.digits hb.digits (by omega) (by omega) <;> omega
  have hsub := sub_eq hnumeral hb hlen (by omega)
  rw [hvalue, if_neg (by omega), Nat.add_sub_cancel, ← ha.eq_decimal] at hsub
  exact congrArg BigInt.mk hsub

theorem add_then_sub_carry :
    (BigInt.mk (ascii "9") + ⟨ascii "991"⟩) - ⟨ascii "991"⟩ = ⟨ascii "9"⟩ :=
  add_then_sub (by decide +kernel) (by decide +kernel) (by decide) (by decide)

end CppInOne.Algorithm.BigInt
