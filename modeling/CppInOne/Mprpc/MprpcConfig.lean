import CppInOne.Lib.ByteString
import CppInOne.Lib.Stdio
import CppInOne.Lib.UnorderedMap
import CppInOne.Mprpc.Protobuf

/-!
# The configuration file

`MprpcConfig::LoadConfigFile` reads lines into an array of 512 bytes, takes the spaces off their
ends and stores what it finds on the two sides of the first `=`. The newline is still there when
the spaces are taken off.
-/

namespace CppInOne.Mprpc
open ByteString

structure MprpcConfig where
  m_configMap : UnorderedMap Bytes Bytes
  deriving DecidableEq, Repr

namespace MprpcConfig

/-! ## The functions of the source -/

def empty : MprpcConfig := ⟨.empty⟩

/-- Drops the spaces at both ends, unless there is nothing else. -/
def Trim (src_buf : Bytes) : Bytes :=
  let src_buf :=
    match find_first_not_of src_buf 0x20 with
    | none => src_buf
    | some idx => (src_buf.drop idx).take (src_buf.length - idx)
  match find_last_not_of src_buf 0x20 with
  | none => src_buf
  | some idx => src_buf.take (idx + 1)

/-- An `int` as a `size_t`. -/
def size_t (n : Int) : Nat := (n % 2 ^ 64).toNat

/-- The key and the value that are stored for the text of a line. -/
def parseLine (read_buf : Bytes) : Option (Bytes × Bytes) :=
  let read_buf := Trim read_buf
  if read_buf.head? = some 0x23 ∨ read_buf = [] then none
  else
    match find read_buf 0x3d with
    | none => none
    | some idx =>
      let key := Trim (read_buf.take idx)
      let endidx : Int := match find read_buf Stdio.newline with
        | none => -1
        | some i => i
      let value := (read_buf.drop (idx + 1)).take (size_t (endidx - idx - 1))
      some (key, value)

/-- A round of the loop. -/
def loadLine (c : MprpcConfig) (buf : Bytes) : MprpcConfig :=
  match parseLine buf with
  | none => c
  | some (key, value) => { c with m_configMap := c.m_configMap.insert key value }

/-- `sizeof buf` -/
def sizeofBuf : Nat := 512

/-- `none` when there is no file, which ends the process. A loop that has not ended after one round
for each byte and two more would be `none` as well. -/
def LoadConfigFile (c : MprpcConfig) (config_file : Option Bytes) : Option MprpcConfig :=
  match config_file with
  | none => none
  | some content =>
    Stdio.readLoop sizeofBuf loadLine (content.length + 2) c (Stdio.fopen content)

def Load (c : MprpcConfig) (key : Bytes) : Bytes :=
  match c.m_configMap.find key with
  | none => []
  | some value => value

theorem Trim_of_spaces {s : Bytes} (h : ∀ c ∈ s, c = 0x20) : Trim s = s := by
  simp only [Trim, find_first_not_of_eq_none.mpr h, find_last_not_of_eq_none.mpr h]

theorem Trim_eq {s : Bytes} (h : ∃ c ∈ s, c ≠ 0x20) :
    Trim s = (s.dropWhile (· == 0x20)).rdropWhile (· == 0x20) := by
  obtain ⟨c, hc, hne⟩ := h
  obtain ⟨idx, hidx⟩ := Option.ne_none_iff_exists'.mp
    (mt find_first_not_of_eq_none.mp fun hall => hne (hall c hc))
  have hdrop : (s.drop idx).take (s.length - idx) = s.dropWhile (· == 0x20) := by
    rw [List.take_of_length_le (by simp), drop_find_first_not_of hidx]
  simp only [Trim, hidx, hdrop]
  split
  · next hnone =>
    -- what is left would have to start with a space
    by_cases hleft : s.dropWhile (· == 0x20) = []
    · rw [hleft]
      rfl
    · have hspace := find_last_not_of_eq_none.mp hnone _ (List.head_mem hleft)
      have hhead := List.head_dropWhile_not (· == 0x20) hleft
      rw [hspace] at hhead
      cases hhead
  · next i hi => exact take_find_last_not_of hi

theorem mem_of_mem_Trim {s : Bytes} {c : UInt8} (hc : c ∈ Trim s) : c ∈ s := by
  by_cases h : ∀ d ∈ s, d = 0x20
  · rwa [Trim_of_spaces h] at hc
  · rw [Trim_eq (by simpa using h)] at hc
    exact (List.dropWhile_sublist _).subset ((List.rdropWhile_prefix _ _).subset hc)

/-- A character other than a space stops what is taken off on either side of it. -/
theorem Trim_append_cons {x : UInt8} (hx : x ≠ 0x20) (l r : Bytes) :
    Trim (l ++ x :: r) =
      l.dropWhile (· == 0x20) ++ x :: r.rdropWhile (· == 0x20) := by
  have hdrop : (l ++ x :: r).dropWhile (· == 0x20) = l.dropWhile (· == 0x20) ++ x :: r := by
    rw [List.dropWhile_append]
    split
    · next hnil =>
      rw [List.isEmpty_iff.mp hnil, List.dropWhile_cons_of_neg (by simpa using hx)]
      rfl
    · rfl
  have hrdrop : ∀ l' : Bytes, (l' ++ x :: r).rdropWhile (· == 0x20) =
      l' ++ x :: r.rdropWhile (· == 0x20) := by
    intro l'
    rw [List.rdropWhile, List.rdropWhile, List.reverse_append, List.reverse_cons,
      List.append_assoc, List.dropWhile_append]
    split
    · next hnil =>
      rw [List.isEmpty_iff.mp hnil, List.singleton_append,
        List.dropWhile_cons_of_neg (by simpa using hx)]
      simp
    · simp
  rw [Trim_eq ⟨x, by simp, hx⟩, hdrop, hrdrop]

/-- No space at either end. -/
def Trimmed (s : Bytes) : Prop := s.head? ≠ some 0x20 ∧ s.getLast? ≠ some 0x20

instance (s : Bytes) : Decidable (Trimmed s) := inferInstanceAs (Decidable (_ ∧ _))

theorem rdropWhile_pad {s : Bytes} (hs : s.getLast? ≠ some 0x20) (n : Nat) :
    (s ++ List.replicate n 0x20).rdropWhile (· == 0x20) = s := by
  induction n with
  | zero =>
    rw [List.replicate_zero, List.append_nil, List.rdropWhile_eq_self_iff]
    intro hne hlast
    apply hs
    rw [List.getLast?_eq_some_getLast hne]
    simpa using hlast
  | succ n ih =>
    rw [List.replicate_succ', ← List.append_assoc, List.rdropWhile_concat_pos _ _ _ (by simp), ih]

theorem dropWhile_pad {s : Bytes} (hs : Trimmed s) (n : Nat) (t : Bytes) (hne : s ≠ []) :
    (List.replicate n 0x20 ++ s ++ t).dropWhile (· == 0x20) = s ++ t := by
  cases s with
  | nil => exact absurd rfl hne
  | cons c s =>
    have hc : c ≠ 0x20 := fun h => hs.1 (by rw [h]; rfl)
    rw [List.append_assoc, List.dropWhile_append_of_pos (by simp), List.cons_append,
      List.dropWhile_cons_of_neg (by simpa using hc)]

/-! ## Lines -/

/-- A key as it can stand in the file. -/
structure IsKey (key : Bytes) : Prop where
  trimmed : Trimmed key
  no_equals : 0x3d ∉ key
  no_newline : Stdio.newline ∉ key
  no_hash : key.head? ≠ some 0x23

theorem parseLine_of_not_mem {s : Bytes} (h : 0x3d ∉ s) : parseLine s = none := by
  have hfind : find (Trim s) 0x3d = none := by
    rw [find, List.findIdx?_eq_none_iff]
    intro c hc
    rw [beq_eq_false_iff_ne]
    rintro rfl
    exact h (mem_of_mem_Trim hc)
  simp only [parseLine, hfind]
  split <;> rfl

theorem parseLine_comment (indent : Nat) (text : Bytes) :
    parseLine (List.replicate indent 0x20 ++ 0x23 :: text) = none := by
  have htrim : (Trim (List.replicate indent 0x20 ++ 0x23 :: text)).head? = some 0x23 := by
    rw [Trim_append_cons (by decide), List.dropWhile_replicate]
    rfl
  simp only [parseLine, htrim, true_or, if_true]

/-- What is left of the part in front of the `=`. -/
theorem exists_front {key : Bytes} (hkey : IsKey key) (indent before : Nat) :
    ∃ front, (List.replicate indent 0x20 ++ key ++ List.replicate before 0x20).dropWhile
        (· == 0x20) = front ∧ Trim front = key ∧ 0x3d ∉ front ∧ Stdio.newline ∉ front ∧
      front.head? ≠ some 0x23 ∧ front.length ≤ key.length + before := by
  by_cases hnil : key = []
  · subst hnil
    refine ⟨[], ?_, rfl, by simp, by simp, by simp, by simp⟩
    rw [List.append_nil, List.dropWhile_eq_nil_iff]
    simp
  · refine ⟨_, dropWhile_pad hkey.trimmed indent _ hnil, ?_, ?_, ?_, ?_, by simp⟩
    · obtain ⟨c, rest, rfl⟩ := List.exists_cons_of_ne_nil hnil
      have hc : c ≠ 0x20 := fun h => hkey.trimmed.1 (by rw [h]; rfl)
      have hdrop := dropWhile_pad hkey.trimmed 0 (List.replicate before 0x20) hnil
      rw [List.replicate_zero, List.nil_append] at hdrop
      rw [Trim_eq ⟨c, by simp, hc⟩, hdrop, rdropWhile_pad hkey.trimmed.2]
    · simp [hkey.no_equals]
    · have hne : Stdio.newline ≠ 0x20 := by decide
      simp [hkey.no_newline, hne]
    · rw [List.head?_append_of_ne_nil _ hnil]
      exact hkey.no_hash

section Pair

variable {key : Bytes} {indent before : Nat} {r : Bytes}

/-- The part of the line in front of the `=`. -/
def keyText (indent : Nat) (key : Bytes) (before : Nat) : Bytes :=
  List.replicate indent 0x20 ++ key ++ List.replicate before 0x20

/-- A line with its newline: what stands between `=` and the newline is stored as it is. -/
theorem parseLine_terminated (hkey : IsKey key) (hr : Stdio.newline ∉ r)
    (hlen : r.length < 2 ^ 64) :
    parseLine (keyText indent key before ++ 0x3d :: (r ++ [Stdio.newline])) = some (key, r) := by
  obtain ⟨front, hfront, htrim, hequals, hnewline, hhash, -⟩ := exists_front hkey indent before
  have hbuf : Trim (keyText indent key before ++ 0x3d :: (r ++ [Stdio.newline])) =
      front ++ 0x3d :: (r ++ [Stdio.newline]) := by
    rw [Trim_append_cons (by decide), keyText, hfront,
      List.rdropWhile_concat_neg _ _ _ (by decide)]
  have hidx : find (front ++ 0x3d :: (r ++ [Stdio.newline])) 0x3d = some front.length :=
    find_append_cons hequals _
  have hend : find (front ++ 0x3d :: (r ++ [Stdio.newline])) Stdio.newline =
      some (front.length + 1 + r.length) := by
    have hsplit : front ++ 0x3d :: (r ++ [Stdio.newline]) =
        (front ++ 0x3d :: r) ++ [Stdio.newline] := by simp
    rw [hsplit, find_append_cons]
    · rw [List.length_append, List.length_cons]
      congr 1
      omega
    · have hne : Stdio.newline ≠ 0x3d := by decide
      simp [hnewline, hr, hne]
  have hcount :
      size_t ((front.length + 1 + r.length : Nat) - front.length - 1 : Int) = r.length := by
    rw [size_t]
    omega
  have hstart : ¬ ((front ++ 0x3d :: (r ++ [Stdio.newline])).head? = some 0x23 ∨
      front ++ 0x3d :: (r ++ [Stdio.newline]) = []) := by
    cases front with
    | nil => simp
    | cons c front => simpa using hhash
  simp only [parseLine, hbuf, if_neg hstart, hidx, hend, hcount, List.take_left', htrim]
  simp

/-- The last line without a newline loses the spaces at its end. -/
theorem parseLine_open (hkey : IsKey key) (hr : Stdio.newline ∉ r)
    (hlen : key.length + before + r.length < 2 ^ 32) :
    parseLine (keyText indent key before ++ 0x3d :: r) =
      some (key, r.rdropWhile (· == 0x20)) := by
  obtain ⟨front, hfront, htrim, hequals, hnewline, hhash, hshort⟩ := exists_front hkey indent before
  have hbuf : Trim (keyText indent key before ++ 0x3d :: r) =
      front ++ 0x3d :: r.rdropWhile (· == 0x20) := by
    rw [Trim_append_cons (by decide), keyText, hfront]
  have hkept := List.rdropWhile_prefix (fun c : UInt8 => c == 0x20) r
  generalize r.rdropWhile (· == 0x20) = v at hbuf hkept ⊢
  have hidx : find (front ++ 0x3d :: v) 0x3d = some front.length := find_append_cons hequals _
  have hend : find (front ++ 0x3d :: v) Stdio.newline = none := by
    rw [find, List.findIdx?_eq_none_iff]
    intro c hc
    rw [beq_eq_false_iff_ne]
    rintro rfl
    have hmem : Stdio.newline ∈ front ∨ Stdio.newline ∈ v := by simpa [Stdio.newline] using hc
    obtain hmem | hmem := hmem
    · exact hnewline hmem
    · exact hr (hkept.subset hmem)
  have hcount : v.length ≤ size_t (-1 - front.length - 1 : Int) := by
    have hle := hkept.length_le
    rw [size_t]
    omega
  have hstart : ¬ ((front ++ 0x3d :: v).head? = some 0x23 ∨ front ++ 0x3d :: v = []) := by
    cases front with
    | nil => simp
    | cons c front => simpa using hhash
  simp only [parseLine, hbuf, if_neg hstart, hidx, hend, List.take_left', htrim]
  rw [← List.drop_drop, List.drop_left]
  simp [List.take_of_length_le hcount]

end Pair

end MprpcConfig

end CppInOne.Mprpc
