import Mathlib.Algebra.Group.Int.Defs
import Mathlib.Algebra.Group.Nat.Defs
import Mathlib.Data.List.Basic
import Mathlib.Data.List.DropRight
import Mathlib.Data.List.Forall2
import Mathlib.Data.List.TakeDrop
import Mathlib.Data.List.TakeWhile

/-!
# Byte strings

The operations of `std::string` on lists, and the layout of a 32-bit word in memory.
Positions and lengths are natural numbers.

## Main definitions

- `substr` — the one operation of this file that throws
- `copy` — overwrite the front of an array
- `Endian.store`, `Endian.load` — the four bytes of a word, in either byte order
-/

namespace ByteString

variable {α : Type*}

/-- The exceptions of `std::string`. -/
inductive Exception where
  | out_of_range
  deriving DecidableEq, Repr

/-! ## Substrings -/

/-- `s.substr(pos, n)`: the length is clamped, the position is not. -/
def substr (s : List α) (pos n : Nat) : Except Exception (List α) :=
  if s.length < pos then .error .out_of_range else .ok ((s.drop pos).take n)

/-- `s.copy(dest, n, 0)`: the first `n` characters of `s`, if there are so many, overwrite
the front of `dest`. -/
def copy (s dest : List α) (n : Nat) : List α :=
  s.take n ++ dest.drop (min n s.length)

/-- The position of the first `x`; `none` is `npos`. -/
def find [BEq α] (s : List α) (x : α) : Option Nat := s.findIdx? (· == x)

/-- The position of the first character other than `x`; `none` is `npos`. -/
def find_first_not_of [BEq α] (s : List α) (x : α) : Option Nat := s.findIdx? (· != x)

/-- The position of the last character other than `x`; `none` is `npos`. -/
def find_last_not_of [BEq α] (s : List α) (x : α) : Option Nat :=
  (s.reverse.findIdx? (· != x)).map (s.length - 1 - ·)

theorem substr_error {s : List α} {pos : Nat} (h : s.length < pos) (n : Nat) :
    substr s pos n = .error .out_of_range := if_pos h

theorem substr_ok {s : List α} {pos : Nat} (h : pos ≤ s.length) (n : Nat) :
    substr s pos n = .ok ((s.drop pos).take n) := if_neg (Nat.not_lt.mpr h)

/-! ## Runs of one character at the ends -/

section Ends

variable [BEq α] {s : List α} {x : α} {idx : Nat}

theorem find_first_not_of_eq_none [LawfulBEq α] :
    find_first_not_of s x = none ↔ ∀ c ∈ s, c = x := by
  simp [find_first_not_of, List.findIdx?_eq_none_iff]

theorem find_last_not_of_eq_none [LawfulBEq α] :
    find_last_not_of s x = none ↔ ∀ c ∈ s, c = x := by
  simp [find_last_not_of, List.findIdx?_eq_none_iff]

theorem drop_find_first_not_of (h : find_first_not_of s x = some idx) :
    s.drop idx = s.dropWhile (· == x) := by
  obtain ⟨-, hidx⟩ := List.findIdx?_eq_some_iff_findIdx_eq.mp h
  rw [List.dropWhile_eq_drop_findIdx_not, ← hidx]
  rfl

theorem take_find_last_not_of (h : find_last_not_of s x = some idx) :
    s.take (idx + 1) = s.rdropWhile (· == x) := by
  obtain ⟨j, hj, rfl⟩ := Option.map_eq_some_iff.mp h
  obtain ⟨hlt, hidx⟩ := List.findIdx?_eq_some_iff_findIdx_eq.mp hj
  rw [List.length_reverse] at hlt
  have hrun : s.reverse.dropWhile (· == x) = s.reverse.drop j := by
    rw [List.dropWhile_eq_drop_findIdx_not, ← hidx]
    rfl
  rw [List.rdropWhile, hrun, List.reverse_drop, List.reverse_reverse, List.length_reverse]
  congr 1
  omega

end Ends

/-! ## Streams in pieces -/

theorem flatten_length_le {fs cs : List (List α)}
    (h : fs.SublistForall₂ (fun f c => f.length ≤ c.length) cs) :
    fs.flatten.length ≤ cs.flatten.length := by
  induction h with
  | nil => exact Nat.zero_le _
  | cons hfc _ ih =>
    simp only [List.flatten_cons, List.length_append]
    omega
  | cons_right _ ih =>
    simp only [List.flatten_cons, List.length_append]
    omega

/-- A stream is cut in the given way already when each piece of that way has a piece at least
as long. -/
theorem eq_of_sublistForall₂ {fs cs : List (List α)}
    (h : fs.SublistForall₂ (fun f c => f.length ≤ c.length) cs) (hne : ∀ c ∈ cs, c ≠ [])
    (hflat : cs.flatten = fs.flatten) : cs = fs := by
  induction h with
  | nil =>
    rename_i cs
    cases cs with
    | nil => rfl
    | cons c cs =>
      have hc : c = [] := (List.append_eq_nil_iff.mp hflat).1
      exact absurd hc (hne c List.mem_cons_self)
  | @cons f c fs cs hfc hrest ih =>
    have hlen := congrArg List.length hflat
    have hle := flatten_length_le hrest
    simp only [List.flatten_cons, List.length_append] at hlen
    -- a longer piece here would have to be made up for by shorter ones later
    obtain ⟨rfl, hflat'⟩ := List.append_inj hflat (by omega)
    rw [ih (fun c hc => hne c (List.mem_cons_of_mem _ hc)) hflat']
  | @cons_right c fs cs hrest _ =>
    have hlen := congrArg List.length hflat
    have hle := flatten_length_le hrest
    -- the piece that stands for nothing leaves too few bytes for the rest
    have hpos := List.length_pos_iff.mpr (hne c List.mem_cons_self)
    simp only [List.flatten_cons, List.length_append] at hlen
    omega

/-! ## Texts in arrays -/

/-- The characters of an ASCII text. -/
def ascii (s : String) : List UInt8 := s.toList.map fun c => .ofNat c.toNat

/-- `%d` -/
def decimal (n : Int) : List UInt8 := ascii (toString n)

/-- `%s` on an array: `none` if no terminator stops it inside the array. -/
def cstring (array : List UInt8) : Option (List UInt8) :=
  if 0 ∈ array then some (array.takeWhile (· ≠ 0)) else none

/-- Format into an array of this size: `none` if text and terminator do not fit. -/
def sprintf (size : Nat) (text : List UInt8) : Option (List UInt8) :=
  if text.length < size then some text else none

/-- Format into an array of this size, cutting the text off where it does not fit. -/
def snprintf (size : Nat) (text : List UInt8) : List UInt8 := text.take (size - 1)

/-- `atoi`; C leaves values undefined that do not fit an `int`. -/
def atoi (s : List UInt8) : Int :=
  match s.dropWhile fun c => c = 0x20 ∨ (0x09 ≤ c ∧ c ≤ 0x0d) with
  | 0x2d :: ds => -number ds
  | 0x2b :: ds => number ds
  | ds => number ds
where
  number (ds : List UInt8) : Nat :=
    (ds.takeWhile fun c => 0x30 ≤ c ∧ c ≤ 0x39).foldl (fun n c => 10 * n + (c.toNat - 0x30)) 0

example : atoi (ascii "8000") = 8000 := by decide

/-! ### Decimal numbers -/

theorem decimal_natCast (k : Nat) :
    decimal k = (Nat.toDigits 10 k).map fun c => .ofNat c.toNat := by
  show ascii (Nat.repr k) = _
  rw [ascii, Nat.toList_repr]

/-- A number below a power of ten has at most as many digits as this power has zeros. -/
theorem decimal_length_le {k d : Nat} (hd : 0 < d) (hk : k < 10 ^ d) :
    (decimal k).length ≤ d := by
  rw [decimal_natCast, List.length_map]
  exact (Nat.length_toDigits_le_iff (by omega) hd).mpr hk

/-- The digits can be read off the bytes. -/
theorem decimal_chars (k : Nat) :
    (decimal k).map (fun b => Char.ofNat b.toNat) = Nat.toDigits 10 k := by
  rw [decimal_natCast, List.map_map]
  conv_rhs => rw [← List.map_id (Nat.toDigits 10 k)]
  apply List.map_congr_left
  intro c hc
  have hdigit := Char.isDigit_iff_toNat.mp (Nat.isDigit_of_mem_toDigits (by omega) (by omega) hc)
  have hlt : c.toNat < 256 := by
    have hnine : '9'.toNat = 57 := rfl
    omega
  simp [Nat.mod_eq_of_lt hlt]

/-- Different numbers have different texts. -/
theorem decimal_natCast_injective {j k : Nat} (h : decimal j = decimal k) : j = k := by
  have hdigits : Nat.toDigits 10 j = Nat.toDigits 10 k := by
    rw [← decimal_chars, ← decimal_chars, h]
  have hvalue := congrArg (fun ds => Nat.ofDigitChars 10 ds 0) hdigits
  simpa using hvalue

/-- An ASCII digit. -/
def isDigit (c : UInt8) : Bool := 0x30 ≤ c ∧ c ≤ 0x39

/-- The number that these digits write. -/
def digitsValue (ds : List UInt8) : Nat := ds.foldl (fun n c => 10 * n + (c.toNat - 0x30)) 0

theorem number_eq (s : List UInt8) : atoi.number s = digitsValue (s.takeWhile isDigit) := rfl

theorem digitsValue_append (ds es : List UInt8) :
    digitsValue (ds ++ es) = digitsValue ds * 10 ^ es.length + digitsValue es := by
  -- the digits read so far are shifted by one place for each further digit
  have hshift : ∀ n, es.foldl (fun n c => 10 * n + (c.toNat - 0x30)) n =
      n * 10 ^ es.length + digitsValue es := by
    induction es with
    | nil => simp [digitsValue]
    | cons e es ih =>
      intro n
      rw [digitsValue, List.foldl_cons, List.foldl_cons, ih, ih (10 * 0 + _), List.length_cons,
        Nat.pow_succ]
      grind
  rw [digitsValue, List.foldl_append, hshift]
  rfl

theorem isDigit_of_mem_decimal {k : Nat} {c : UInt8} (hc : c ∈ decimal k) : isDigit c = true := by
  rw [decimal_natCast] at hc
  obtain ⟨d, hd, rfl⟩ := List.mem_map.mp hc
  have hdigit := Char.isDigit_iff_toNat.mp (Nat.isDigit_of_mem_toDigits (by omega) (by omega) hd)
  have hzero : '0'.toNat = 48 := rfl
  have hnine : '9'.toNat = 57 := rfl
  have hval : (UInt8.ofNat d.toNat).toNat = d.toNat := by
    rw [UInt8.toNat_ofNat']
    omega
  rw [isDigit, decide_eq_true_eq, UInt8.le_iff_toNat_le, UInt8.le_iff_toNat_le, hval]
  simp
  omega

/-- The digits of a number write this number. -/
theorem digitsValue_decimal (k : Nat) : digitsValue (decimal k) = k := by
  have hread : Nat.ofDigitChars 10 ((decimal k).map fun b => Char.ofNat b.toNat) 0 = k := by
    rw [decimal_chars, Nat.ofDigitChars_ten_toDigits]
  rw [Nat.ofDigitChars_eq_foldl, List.foldl_map] at hread
  refine Eq.trans ?_ hread
  rw [digitsValue]
  congr 1
  funext n b
  have hb : b.toNat < 256 := b.toNat_lt
  have hchar : (Char.ofNat b.toNat).toNat = b.toNat := by
    rw [Char.ofNat, dif_pos (Or.inl (by omega))]
    rfl
  rw [hchar]
  rfl

/-- A text that starts with a digit has neither blanks nor a sign in front. -/
theorem atoi_of_isDigit {c : UInt8} (hc : isDigit c = true) (s : List UInt8) :
    atoi (c :: s) = atoi.number (c :: s) := by
  rw [isDigit, decide_eq_true_eq, UInt8.le_iff_toNat_le, UInt8.le_iff_toNat_le] at hc
  have hlow : 48 ≤ c.toNat := hc.1
  have hspace : ¬ (c = 0x20 ∨ (0x09 ≤ c ∧ c ≤ 0x0d)) := by
    rw [← UInt8.toNat_inj, UInt8.le_iff_toNat_le, UInt8.le_iff_toNat_le]
    simp
    omega
  rw [atoi, List.dropWhile_cons_of_neg (by simpa using hspace)]
  split
  · next heq =>
    cases heq
    exact absurd hlow (by decide)
  · next heq =>
    cases heq
    exact absurd hlow (by decide)
  · rfl

/-- `atoi` goes on with the digits behind a number. -/
theorem atoi_decimal_append (k : Nat) (t : List UInt8) :
    atoi (decimal k ++ t) =
      k * 10 ^ (t.takeWhile isDigit).length + digitsValue (t.takeWhile isDigit) := by
  have hdigits : (decimal k ++ t).takeWhile isDigit = decimal k ++ t.takeWhile isDigit :=
    List.takeWhile_append_of_pos fun c hc => isDigit_of_mem_decimal hc
  have hnumber : atoi (decimal k ++ t) = atoi.number (decimal k ++ t) := by
    cases hk : decimal k with
    | nil =>
      have hnil := decimal_chars k
      rw [hk, List.map_nil] at hnil
      exact absurd hnil.symm Nat.toDigits_ne_nil
    | cons d ds =>
      have hd : isDigit d = true := isDigit_of_mem_decimal (by rw [hk]; exact List.mem_cons_self)
      exact atoi_of_isDigit hd _
  rw [hnumber, number_eq, hdigits, digitsValue_append, digitsValue_decimal]
  push_cast
  rfl

/-- A decimal numeral: digits, perhaps with a sign in front, and the number that they write. -/
inductive Numeral : List UInt8 → Int → Prop
  | unsigned {ds : List UInt8} (hne : ds ≠ []) (hds : ∀ c ∈ ds, isDigit c = true) :
    Numeral ds (digitsValue ds)
  | plus {ds : List UInt8} (hne : ds ≠ []) (hds : ∀ c ∈ ds, isDigit c = true) :
    Numeral (0x2b :: ds) (digitsValue ds)
  | minus {ds : List UInt8} (hne : ds ≠ []) (hds : ∀ c ∈ ds, isDigit c = true) :
    Numeral (0x2d :: ds) (-digitsValue ds)

theorem number_of_digits {ds : List UInt8} (hds : ∀ c ∈ ds, isDigit c = true) :
    atoi.number ds = digitsValue ds := by
  rw [number_eq, List.takeWhile_eq_self_iff.mpr hds]

/-- `atoi` reads a numeral to its end. -/
theorem atoi_numeral {s : List UInt8} {n : Int} (h : Numeral s n) : atoi s = n := by
  cases h with
  | unsigned hne hds =>
    obtain ⟨c, ds, rfl⟩ := List.exists_cons_of_ne_nil hne
    rw [atoi_of_isDigit (hds c List.mem_cons_self), number_of_digits hds]
  | plus hne hds =>
    rw [atoi, List.dropWhile_cons_of_neg (by decide)]
    exact congrArg Int.ofNat (number_of_digits hds)
  | minus hne hds =>
    rw [atoi, List.dropWhile_cons_of_neg (by decide)]
    exact congrArg (fun k : Nat => -(k : Int)) (number_of_digits hds)

/-- A numeral has no terminator in it. -/
theorem zero_not_mem_numeral {s : List UInt8} {n : Int} (h : Numeral s n) : 0 ∉ s := by
  have hdigits {ds : List UInt8} (hds : ∀ c ∈ ds, isDigit c = true) : 0 ∉ ds :=
    fun hmem => absurd (hds 0 hmem) (by decide)
  cases h with
  | unsigned hne hds => exact hdigits hds
  | plus hne hds => exact List.not_mem_cons_of_ne_of_not_mem (by decide) (hdigits hds)
  | minus hne hds => exact List.not_mem_cons_of_ne_of_not_mem (by decide) (hdigits hds)

/-! ### Terminated texts -/

theorem zero_not_mem_takeWhile (s : List UInt8) : 0 ∉ s.takeWhile (· ≠ 0) := by
  intro hmem
  simpa using List.mem_takeWhile_imp hmem

theorem takeWhile_eq_self {s : List UInt8} (hs : 0 ∉ s) : s.takeWhile (· ≠ 0) = s := by
  rw [List.takeWhile_eq_self_iff]
  intro c hc
  rw [decide_eq_true_eq]
  rintro rfl
  exact hs hc

theorem takeWhile_append_of_not_mem {s : List UInt8} (hs : 0 ∉ s) (t : List UInt8) :
    (s ++ t).takeWhile (· ≠ 0) = s ++ t.takeWhile (· ≠ 0) :=
  List.takeWhile_append_of_pos (List.takeWhile_eq_self_iff.mp (takeWhile_eq_self hs))

/-- What comes behind a terminator does not count. -/
theorem takeWhile_append_of_mem {s : List UInt8} (hs : 0 ∈ s) (t : List UInt8) :
    (s ++ t).takeWhile (· ≠ 0) = s.takeWhile (· ≠ 0) := by
  rw [List.takeWhile_append, if_neg]
  intro hlen
  have hall := (List.takeWhile_prefix fun c : UInt8 => c ≠ 0).eq_of_length hlen
  have hzero := List.takeWhile_eq_self_iff.mp hall 0 hs
  simp at hzero

theorem cstring_append {s t : List UInt8} (hs : 0 ∉ s) :
    cstring (s ++ t) = (cstring t).map (s ++ ·) := by
  rw [cstring, cstring, takeWhile_append_of_not_mem hs]
  by_cases ht : 0 ∈ t
  · rw [if_pos ht, if_pos (List.mem_append_right s ht)]
    rfl
  · rw [if_neg ht, if_neg fun h => (List.mem_append.mp h).elim hs ht]
    rfl

theorem find_append_cons [BEq α] [LawfulBEq α] {s : List α} {x : α} (hs : x ∉ s) (t : List α) :
    find (s ++ x :: t) x = some s.length := by
  have hnone : s.findIdx? (· == x) = none := by
    rw [List.findIdx?_eq_none_iff]
    intro y hy
    rw [beq_eq_false_iff_ne]
    rintro rfl
    exact hs hy
  rw [find, List.findIdx?_append, hnone, List.findIdx?_cons]
  simp

/-! ## Words in memory -/

/-- The byte order of the machine. -/
inductive Endian where
  | little
  | big
  deriving DecidableEq, Repr

/-- The bytes of a word, the lowest first. -/
def digits (w : UInt32) : List UInt8 :=
  [.ofNat w.toNat, .ofNat (w.toNat / 256), .ofNat (w.toNat / 65536), .ofNat (w.toNat / 16777216)]

def value : List UInt8 → Nat
  | [] => 0
  | b :: bs => b.toNat + 256 * value bs

namespace Endian

/-- The four bytes at the address of a `uint32_t`. -/
def store : Endian → UInt32 → List UInt8
  | .little, w => digits w
  | .big, w => (digits w).reverse

/-- The `uint32_t` stored in these bytes. -/
def load : Endian → List UInt8 → UInt32
  | .little, bs => .ofNat (value bs)
  | .big, bs => .ofNat (value bs.reverse)

@[simp] theorem store_length (e : Endian) (w : UInt32) : (e.store w).length = 4 := by
  cases e <;> rfl

theorem value_digits (w : UInt32) : value (digits w) = w.toNat := by
  have hw : w.toNat < 2 ^ 32 := w.toNat_lt
  simp only [digits, value, UInt8.toNat_ofNat']
  omega

/-- Loading a stored word gives it back. -/
@[simp] theorem load_store (e : Endian) (w : UInt32) : e.load (e.store w) = w := by
  cases e with
  | little => simp [load, store, value_digits]
  | big => simp [load, store, value_digits]

/-- A word is overwritten as a whole by the front of a long enough string. -/
theorem copy_word (e : Endian) (w z : UInt32) (s : List UInt8) :
    copy (e.store w ++ s) (e.store z) 4 = e.store w := by
  have hz : (e.store z).drop 4 = [] := List.drop_eq_nil_of_le (by simp)
  simp [copy, hz, List.take_left' (store_length e w)]

/-- Adding 4 to a word wraps only if its bytes are `0xff`, the lowest at least `0xfc`. The
byte at the wrapped sum is then one of these two. -/
theorem byte_of_wrap (e : Endian) {bs : List UInt8} (hlen : bs.length = 4)
    (hwrap : 2 ^ 32 ≤ 4 + (e.load bs).toNat) :
    ∃ x ∈ bs[4 + (e.load bs).toNat - 2 ^ 32]?, x = 0xfc ∨ x = 0xff := by
  match bs, hlen with
  | [a, b, c, d], _ =>
    have ha : a.toNat < 256 := a.toNat_lt
    have hb : b.toNat < 256 := b.toNat_lt
    have hc : c.toNat < 256 := c.toNat_lt
    have hd : d.toNat < 256 := d.toNat_lt
    cases e with
    | little =>
      simp only [load, value, UInt32.toNat_ofNat'] at hwrap ⊢
      -- `a` is the lowest byte, and the wrapped sum counts it from `0xfc` on
      obtain ⟨hb, hc, hd⟩ : b.toNat = 255 ∧ c.toNat = 255 ∧ d.toNat = 255 := by omega
      have hq : 4 + (a.toNat + 256 * (b.toNat + 256 * (c.toNat + 256 * (d.toNat + 256 * 0)))) %
          2 ^ 32 - 2 ^ 32 = a.toNat - 252 := by omega
      rw [hq]
      obtain h | h | h | h : a.toNat = 252 ∨ a.toNat = 253 ∨ a.toNat = 254 ∨ a.toNat = 255 := by
        omega
      · exact ⟨a, by simp [h], Or.inl (UInt8.toNat_inj.mp h)⟩
      · exact ⟨b, by simp [h], Or.inr (UInt8.toNat_inj.mp hb)⟩
      · exact ⟨c, by simp [h], Or.inr (UInt8.toNat_inj.mp hc)⟩
      · exact ⟨d, by simp [h], Or.inr (UInt8.toNat_inj.mp hd)⟩
    | big =>
      simp only [load, value, UInt32.toNat_ofNat', List.reverse_cons, List.reverse_nil,
        List.nil_append, List.cons_append] at hwrap ⊢
      obtain ⟨ha, hb, hc⟩ : a.toNat = 255 ∧ b.toNat = 255 ∧ c.toNat = 255 := by omega
      have hq : 4 + (d.toNat + 256 * (c.toNat + 256 * (b.toNat + 256 * (a.toNat + 256 * 0)))) %
          2 ^ 32 - 2 ^ 32 = d.toNat - 252 := by omega
      rw [hq]
      obtain h | h | h | h : d.toNat = 252 ∨ d.toNat = 253 ∨ d.toNat = 254 ∨ d.toNat = 255 := by
        omega
      · exact ⟨a, by simp [h], Or.inr (UInt8.toNat_inj.mp ha)⟩
      · exact ⟨b, by simp [h], Or.inr (UInt8.toNat_inj.mp hb)⟩
      · exact ⟨c, by simp [h], Or.inr (UInt8.toNat_inj.mp hc)⟩
      · exact ⟨d, by simp [h], Or.inr (UInt8.toNat_inj.mp h)⟩

end Endian

end ByteString
