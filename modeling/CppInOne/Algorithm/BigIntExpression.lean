import CppInOne.Algorithm.BigIntArithmetic
import CppInOne.Lib.Expression

/-!
# Expressions over `BigInt`

A program computes with `BigInt`s by nesting the two operators. The text of the whole is right as
long as no operand is negative; a sign that stands behind the digits would be taken for a digit by
the next operator.

## Main results

- `eval_written` — the text that an expression is evaluated to
-/

namespace CppInOne.Algorithm.BigInt
open ByteString

/-- The text of a number with its sign behind the digits. -/
def signLast (v : ℤ) : Bytes := decimal v.natAbs ++ if v < 0 then [0x2d] else []

/-- The expression as the program has it, with a text for each number. -/
def written (e : Expression ℕ) : Expression BigInt := e.map fun k : ℕ => ⟨decimal k⟩

/-- The expression over the integers. -/
def meant (e : Expression ℕ) : Expression ℤ := e.map (↑)

theorem signLast_of_nonneg {v : ℤ} (hv : 0 ≤ v) : signLast v = decimal v.toNat := by
  rw [signLast, if_neg (Int.not_lt.mpr hv), List.append_nil]
  congr 2
  omega

/-- The text stands for the number, and is no longer than `k` if the number is not negative. -/
structure Denotes (k : ℕ) (a : BigInt) (v : ℤ) : Prop where
  text : a.stringDict = signLast v
  length : 0 ≤ v → a.stringDict.length ≤ k

variable {j k : ℕ} {a a' : BigInt} {v v' : ℤ}

theorem Denotes.eq_decimal (h : Denotes k a v) (hv : 0 ≤ v) : a = ⟨decimal v.toNat⟩ := by
  cases a
  exact congrArg BigInt.mk (h.text.trans (signLast_of_nonneg hv))

theorem Denotes.add (hm : j + k + 1 ≤ 2 ^ 31) (hv : 0 ≤ v) (hv' : 0 ≤ v') (h : Denotes j a v)
    (h' : Denotes k a' v') : Denotes (j + k + 1) (a + a') (v + v') := by
  obtain rfl := h.eq_decimal hv
  obtain rfl := h'.eq_decimal hv'
  have hlen : (decimal v.toNat).length ≤ j := h.length hv
  have hlen' : (decimal v'.toNat).length ≤ k := h'.length hv'
  have hleft := isNumeral_decimal v.toNat
  have hright := isNumeral_decimal v'.toNat
  have hsum := (isNumeral_add hleft hright (by omega) (by omega)).eq_decimal
  rw [digitsValue_add hleft.digits hright.digits (by omega) (by omega), digitsValue_decimal,
    digitsValue_decimal] at hsum
  refine ⟨?_, fun _ => ?_⟩
  · rw [hsum, signLast_of_nonneg (Int.add_nonneg hv hv'), Int.toNat_add hv hv']
  · obtain heq | ⟨-, heq⟩ := length_add hleft.digits hright.digits (by omega) (by omega) <;>
      rw [heq] <;> omega

theorem Denotes.sub (hm : j + k + 1 ≤ 2 ^ 31) (hv : 0 ≤ v) (hv' : 0 ≤ v') (h : Denotes j a v)
    (h' : Denotes k a' v') : Denotes (j + k + 1) (a - a') (v - v') := by
  obtain rfl := h.eq_decimal hv
  obtain rfl := h'.eq_decimal hv'
  have hlen : (decimal v.toNat).length ≤ j := h.length hv
  have hlen' : (decimal v'.toNat).length ≤ k := h'.length hv'
  have hleft := isNumeral_decimal v.toNat
  have hdiff := sub_eq hleft (isNumeral_decimal v'.toNat) (by omega) (by omega)
  rw [digitsValue_decimal, digitsValue_decimal] at hdiff
  by_cases hlt : v.toNat < v'.toNat
  · rw [if_pos hlt] at hdiff
    refine ⟨?_, fun hnonneg => ?_⟩
    · have hneg : v - v' < 0 := by omega
      rw [hdiff, signLast, if_pos hneg]
      congr 3
      omega
    · omega
  · rw [if_neg hlt] at hdiff
    refine ⟨?_, fun hnonneg => ?_⟩
    · rw [hdiff, signLast_of_nonneg (by omega)]
      congr 2
      omega
    · -- the difference is not greater than the left operand
      have hbound := digitsValue_lt hleft.digits
      rw [digitsValue_decimal] at hbound
      have hle : (decimal (v.toNat - v'.toNat : ℕ)).length ≤ (decimal v.toNat).length :=
        decimal_length_le (List.length_pos_iff.mpr hleft.nonempty) (by omega)
      rw [hdiff]
      omega

/-- **Expressions are evaluated to the text of their value.** No operand is negative, and the
texts of the numbers and the operators together are at most `2 ^ 31`. -/
theorem eval_written (e : Expression ℕ) (hoperands : (meant e).Operands (0 ≤ ·))
    (hweight : e.weight (fun k : ℕ => (decimal k).length) ≤ 2 ^ 31) :
    (written e).eval = ⟨signLast (meant e).eval⟩ := by
  have hliteral : ∀ k : ℕ, Denotes (decimal k).length ⟨decimal k⟩ k := fun k =>
    ⟨(signLast_of_nonneg (Int.natCast_nonneg k)).symm, fun _ => Nat.le_refl _⟩
  have h : Denotes _ (written e).eval (meant e).eval :=
    Expression.eval_related hliteral Denotes.add Denotes.sub hoperands hweight
  rw [← h.text]

/-- The expression `(999 + 1) - 1000 + 12 - 123`, which is negative in the end. -/
def nested : Expression ℕ :=
  .sub (.add (.sub (.add (.literal 999) (.literal 1)) (.literal 1000)) (.literal 12)) (.literal 123)

theorem eval_written_nested : (written nested).eval = ⟨ascii "111-"⟩ :=
  (eval_written nested (by decide) (by decide +kernel)).trans (by decide +kernel)

end CppInOne.Algorithm.BigInt
