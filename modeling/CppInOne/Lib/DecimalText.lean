import Mathlib.Tactic.IntervalCases
import CppInOne.Lib.ByteString
import CppInOne.Lib.Numeral

/-!
# Decimal texts

The characters of a decimal number as digits to the base ten, and the texts without superfluous
leading zeros: there is exactly one of them for each number.
-/

namespace ByteString

def digit (c : UInt8) : Nat := c.toNat - 0x30

def digitChar (d : Nat) : UInt8 := .ofNat (d + 0x30)

theorem digit_lt {c : UInt8} (hc : isDigit c = true) : digit c < 10 := by
  rw [isDigit, decide_eq_true_eq, UInt8.le_iff_toNat_le, UInt8.le_iff_toNat_le] at hc
  have hhigh : c.toNat ≤ 57 := hc.2
  rw [digit]
  omega

theorem digitChar_digit {c : UInt8} (hc : isDigit c = true) : digitChar (digit c) = c := by
  rw [isDigit, decide_eq_true_eq, UInt8.le_iff_toNat_le, UInt8.le_iff_toNat_le] at hc
  have hlow : 48 ≤ c.toNat := hc.1
  rw [digitChar, digit, Nat.sub_add_cancel hlow, UInt8.ofNat_toNat]

theorem toNat_digitChar {d : Nat} (hd : d < 10) : (digitChar d).toNat = d + 48 := by
  rw [digitChar, UInt8.toNat_ofNat']
  omega

theorem digit_digitChar {d : Nat} (hd : d < 10) : digit (digitChar d) = d := by
  rw [digit, toNat_digitChar hd]
  omega

theorem isDigit_digitChar {d : Nat} (hd : d < 10) : isDigit (digitChar d) = true := by
  rw [isDigit, decide_eq_true_eq, UInt8.le_iff_toNat_le, UInt8.le_iff_toNat_le, toNat_digitChar hd]
  simp
  omega

/-- The digits of a text, the lowest first. -/
def digitList (s : List UInt8) : List Nat := s.reverse.map digit

theorem digitsValue_eq_ofDigits (s : List UInt8) :
    digitsValue s = Nat.ofDigits 10 (digitList s) := by
  induction s using List.reverseRecOn with
  | nil => rfl
  | append_singleton s c ih =>
    rw [digitsValue_append, ih, digitList, digitList, List.reverse_append, List.map_append,
      List.reverse_singleton, List.map_singleton, List.singleton_append, Nat.ofDigits_cons]
    simp [digitsValue, digit]
    ring

theorem lt_of_mem_digitList {s : List UInt8} (hs : ∀ c ∈ s, isDigit c = true) {d : Nat}
    (hd : d ∈ digitList s) : d < 10 := by
  obtain ⟨c, hc, rfl⟩ := List.mem_map.mp hd
  exact digit_lt (hs c (List.mem_reverse.mp hc))

/-- Digits, and no zero in front of others. -/
structure IsNumeral (s : List UInt8) : Prop where
  nonempty : s ≠ []
  digits : ∀ c ∈ s, isDigit c = true
  front : s.head? = some 0x30 → s = [0x30]

instance (s : List UInt8) : Decidable (IsNumeral s) :=
  decidable_of_iff (s ≠ [] ∧ s.all isDigit = true ∧ (s.head? = some 0x30 → s = [0x30]))
    ⟨fun h => ⟨h.1, List.all_eq_true.mp h.2.1, h.2.2⟩,
      fun h => ⟨h.nonempty, List.all_eq_true.mpr h.digits, h.front⟩⟩

theorem decimal_digit {c : UInt8} (hc : isDigit c = true) : decimal (digit c) = [c] := by
  have hlt := digit_lt hc
  have hchar : decimal (digit c) = [digitChar (digit c)] := by
    interval_cases digit c <;> rfl
  rw [hchar, digitChar_digit hc]

theorem decimal_of_ten_le {n : Nat} (hn : 10 ≤ n) :
    decimal n = decimal (n / 10 : Nat) ++ [digitChar (n % 10)] := by
  rw [decimal_natCast, decimal_natCast, Nat.toDigits_of_base_le (by omega) hn, List.map_append]
  have hlt : n % 10 < 10 := Nat.mod_lt n (by omega)
  congr 1
  interval_cases n % 10 <;> rfl

/-- A numeral is the text of its value. -/
theorem IsNumeral.eq_decimal {s : List UInt8} (hs : IsNumeral s) : s = decimal (digitsValue s) := by
  induction s using List.reverseRecOn with
  | nil => exact absurd rfl hs.nonempty
  | append_singleton t c ih =>
    have hc : isDigit c = true := hs.digits c (by simp)
    have hvalue : digitsValue (t ++ [c]) = digitsValue t * 10 + digit c := by
      rw [digitsValue_append]
      simp [digitsValue, digit]
    by_cases ht : t = []
    · subst ht
      rw [hvalue]
      simpa [digitsValue] using (decimal_digit hc).symm
    · have hfront : t.head? ≠ some 0x30 := by
        intro h
        have hall := hs.front (by rw [List.head?_append_of_ne_nil _ ht]; exact h)
        have hlen := congrArg List.length hall
        have hpos := List.length_pos_iff.mpr ht
        simp at hlen
        exact ht hlen
      have hrest := ih ⟨ht, fun d hd => hs.digits d (List.mem_append_left _ hd),
        fun h => absurd h hfront⟩
      -- the front is not zero, so the value has a tens digit
      have hpos : digitsValue t ≠ 0 := by
        intro hzero
        rw [hzero] at hrest
        rw [hrest] at hfront
        exact hfront rfl
      have hlt := digit_lt hc
      rw [hvalue, decimal_of_ten_le (by omega)]
      have hdiv : (digitsValue t * 10 + digit c) / 10 = digitsValue t := by omega
      have hmod : (digitsValue t * 10 + digit c) % 10 = digit c := by omega
      rw [hdiv, hmod, digitChar_digit hc, ← hrest]

theorem isNumeral_decimal (k : ℕ) : IsNumeral (decimal k) := by
  have hne : ∀ k : ℕ, decimal k ≠ [] := by
    intro k
    rw [decimal_natCast]
    simp [Nat.toDigits_ne_nil]
  refine ⟨hne k, fun c hc => isDigit_of_mem_decimal hc, ?_⟩
  induction k using Nat.strongRecOn with
  | ind k ih =>
    intro hzero
    by_cases hk : k < 10
    · interval_cases k <;> first | rfl | cases hzero
    · rw [decimal_of_ten_le (Nat.not_lt.mp hk), List.head?_append_of_ne_nil _ (hne _)] at hzero
      have hfront : decimal (k / 10 : ℕ) = decimal (0 : ℕ) := ih (k / 10) (by omega) hzero
      have hdiv := decimal_natCast_injective hfront
      omega

theorem digitsValue_lt {s : List UInt8} (hs : ∀ c ∈ s, isDigit c = true) :
    digitsValue s < 10 ^ s.length := by
  rw [digitsValue_eq_ofDigits]
  have hlt := Nat.ofDigits_lt_base_pow_length (b := 10) (l := digitList s) (by omega)
    fun d hd => lt_of_mem_digitList hs hd
  simpa [digitList] using hlt

theorem digitsValue_cons (c : UInt8) (s : List UInt8) :
    digitsValue (c :: s) = digit c * 10 ^ s.length + digitsValue s := by
  have happend := digitsValue_append [c] s
  rw [List.singleton_append] at happend
  rw [happend]
  simp [digitsValue, digit]

/-- A numeral of several digits has a lower bound. -/
theorem IsNumeral.pow_le {s : List UInt8} (hs : IsNumeral s) (hlen : 2 ≤ s.length) :
    10 ^ (s.length - 1) ≤ digitsValue s := by
  obtain ⟨c, t, rfl⟩ := List.exists_cons_of_ne_nil hs.nonempty
  have hc : digit c ≠ 0 := by
    intro hzero
    have hchar := digitChar_digit (hs.digits c List.mem_cons_self)
    rw [hzero] at hchar
    have hall := hs.front (by rw [← hchar]; rfl)
    rw [hall] at hlen
    simp at hlen
  rw [digitsValue_cons, List.length_cons, Nat.add_sub_cancel]
  have hmul : 1 * 10 ^ t.length ≤ digit c * 10 ^ t.length :=
    Nat.mul_le_mul_right _ (Nat.one_le_iff_ne_zero.mpr hc)
  omega

/-- Digits whose value has this bound are a numeral. -/
theorem isNumeral_of_pow_le {s : List UInt8} (hne : s ≠ []) (hs : ∀ c ∈ s, isDigit c = true)
    (hle : 2 ≤ s.length → 10 ^ (s.length - 1) ≤ digitsValue s) : IsNumeral s where
  nonempty := hne
  digits := hs
  front hzero := by
    obtain ⟨c, t, rfl⟩ := List.exists_cons_of_ne_nil hne
    obtain rfl : c = 0x30 := Option.some.inj hzero
    by_cases ht : t = []
    · rw [ht]
    · have hpos := List.length_pos_iff.mpr ht
      have hlt := digitsValue_lt fun d hd => hs d (List.mem_cons_of_mem _ hd)
      have hle := hle (Nat.succ_le_succ hpos)
      have hdigit : digit 0x30 = 0 := rfl
      rw [digitsValue_cons, List.length_cons, Nat.add_sub_cancel, hdigit] at hle
      omega

/-- A numeral that is longer than another one is larger. -/
theorem IsNumeral.lt_of_length_lt {s t : List UInt8} (hs : IsNumeral s) (ht : IsNumeral t)
    (hlen : s.length < t.length) : digitsValue s < digitsValue t := by
  have hpos := List.length_pos_iff.mpr hs.nonempty
  have hlt := digitsValue_lt hs.digits
  have hle := ht.pow_le (by omega)
  have hpow : 10 ^ s.length ≤ 10 ^ (t.length - 1) := Nat.pow_le_pow_right (by omega) (by omega)
  omega

theorem IsNumeral.eq_of_digitsValue {s t : List UInt8} (hs : IsNumeral s) (ht : IsNumeral t)
    (h : digitsValue s = digitsValue t) : s = t := by
  have hs' := hs.eq_decimal
  rw [h, ← ht.eq_decimal] at hs'
  exact hs'

/-- Texts of one length are ordered like their values. -/
theorem digitsValue_lt_iff {s t : List UInt8} (hs : ∀ c ∈ s, isDigit c = true)
    (ht : ∀ c ∈ t, isDigit c = true) (hlen : s.length = t.length) :
    digitsValue s < digitsValue t ↔ s < t := by
  have hmap : s.map digit < t.map digit ↔ s < t := by
    induction s generalizing t with
    | nil =>
      obtain rfl := List.length_eq_zero_iff.mp hlen.symm
      simp
    | cons c s ih =>
      obtain ⟨d, t, rfl⟩ := List.exists_cons_of_length_eq_add_one hlen.symm
      have hc := hs c List.mem_cons_self
      have hd := ht d List.mem_cons_self
      rw [isDigit, decide_eq_true_eq, UInt8.le_iff_toNat_le, UInt8.le_iff_toNat_le] at hc hd
      have hlow : 48 ≤ c.toNat := hc.1
      have hlow' : 48 ≤ d.toNat := hd.1
      have hlt : digit c < digit d ↔ c < d := by
        rw [digit, digit, UInt8.lt_iff_toNat_lt]
        omega
      have heq : digit c = digit d ↔ c = d := by
        rw [digit, digit, ← UInt8.toNat_inj]
        omega
      rw [List.map_cons, List.map_cons, List.cons_lt_cons_iff, List.cons_lt_cons_iff, hlt, heq,
        ih (fun x hx => hs x (List.mem_cons_of_mem c hx))
          (fun x hx => ht x (List.mem_cons_of_mem d hx)) (Nat.succ.inj hlen)]
  have hlt := Numeral.ofDigits_lt_iff (b := 10) (by omega) (s.map digit) (t.map digit)
    (fun x hx => by obtain ⟨c, hc, rfl⟩ := List.mem_map.mp hx; exact digit_lt (hs c hc))
    (fun x hx => by obtain ⟨c, hc, rfl⟩ := List.mem_map.mp hx; exact digit_lt (ht c hc))
    (by simpa using hlen)
  rw [digitsValue_eq_ofDigits, digitsValue_eq_ofDigits, digitList, digitList, List.map_reverse,
    List.map_reverse, hlt, hmap]

end ByteString
