import CppInOne.Mprpc.MprpcConfig

/-!
# What a configuration file means

A file is a sequence of lines: comments, lines without `=`, and lines `key = value` with spaces
around the key and the value. `LoadConfigFile` takes the spaces off the key, but not off the value:
`Trim` sees the line with its newline, and the value is never trimmed.

## Main definitions

- `Line`, `ConfigFile` — the format, and the text of a file
- `ConfigFile.value` — the value of a key: that of the first line with this key
- `ConfigFile.Tight` — no spaces around the values, as far as the code does not drop them

## Main results

- `load_iff_tight` — every key is read as intended if and only if the file is tight
-/

namespace CppInOne.Mprpc.MprpcConfig
open ByteString

/-! ## The format -/

inductive Line where
  | comment (indent : Nat) (text : Bytes)
  /-- A blank line, or any other line without `=`. -/
  | plain (text : Bytes)
  | pair (indent : Nat) (key : Bytes) (before after : Nat) (value : Bytes) (trail : Nat)
  deriving DecidableEq, Repr

namespace Line

def spaces (n : Nat) : Bytes := List.replicate n 0x20

def text : Line → Bytes
  | comment indent text => spaces indent ++ 0x23 :: text
  | plain text => text
  | pair indent key before after value trail =>
    keyText indent key before ++ 0x3d :: (spaces after ++ value ++ spaces trail)

def Ok : Line → Prop
  | comment _ text => Stdio.newline ∉ text
  | plain text => Stdio.newline ∉ text ∧ 0x3d ∉ text
  | pair _ key _ _ value _ => IsKey key ∧ Trimmed value ∧ Stdio.newline ∉ value

def key? : Line → Option Bytes
  | pair _ key _ _ _ _ => some key
  | _ => none

def value : Line → Bytes
  | pair _ _ _ _ value _ => value
  | _ => []

/-- The value is stored as it is: the text behind `=` has no spaces that the code does not drop,
and a C string can hold the line. A key with a zero in it is never stored. -/
def Tight (terminated : Bool) : Line → Prop
  | pair _ key _ after value trail =>
    if 0 ∈ key then value = []
    else 0 ∉ value ∧ if terminated then after = 0 ∧ trail = 0 else value = [] ∨ after = 0
  | _ => True

end Line

/-- The lines that end with a newline, and one behind them that does not. -/
structure ConfigFile where
  lines : List Line
  last : Option Line
  ok : ∀ l ∈ lines ++ last.toList, l.Ok
  short : ∀ l ∈ lines ++ last.toList, l.text.length ≤ 510

namespace ConfigFile

def content (file : ConfigFile) : Bytes :=
  (file.lines.map Line.text).flatMap (· ++ [Stdio.newline]) ++ file.last.elim [] Line.text

/-- The lines in their order, and whether a newline follows. -/
def tagged (file : ConfigFile) : List (Line × Bool) :=
  file.lines.map (·, true) ++ file.last.toList.map (·, false)

/-- The first line with this key. -/
def first (file : ConfigFile) (key : Bytes) : Option (Line × Bool) :=
  file.tagged.find? fun x => x.1.key? == some key

/-- What the file says about a key: the value of the first line that has it. -/
def value (file : ConfigFile) (key : Bytes) : Bytes := (file.first key).elim [] (·.1.value)

def Tight (file : ConfigFile) : Prop :=
  ∀ key x, file.first key = some x → x.1.Tight x.2

end ConfigFile

/-! ## One line -/

/-- The text of a line as a C string. -/
def lineText (x : Line × Bool) : Bytes :=
  (x.1.text ++ if x.2 then [Stdio.newline] else []).takeWhile (· ≠ 0)

theorem parseLine_lineText_none {x : Line × Bool} (hok : x.1.Ok) (hkey : x.1.key? = none) :
    parseLine (lineText x) = none := by
  obtain ⟨l, terminated⟩ := x
  cases l with
  | comment indent text =>
    have hspaces : (0 : UInt8) ∉ Line.spaces indent := by simp [Line.spaces]
    rw [lineText, Line.text, List.append_assoc, takeWhile_append_of_not_mem hspaces,
      List.cons_append, List.takeWhile_cons_of_pos (by decide)]
    exact parseLine_comment ..
  | plain text =>
    apply parseLine_of_not_mem
    intro hmem
    have hmem' := (List.takeWhile_sublist _).subset hmem
    cases terminated <;> simp [Line.text, hok.2, Stdio.newline] at hmem'
  | pair indent key before after value trail => cases hkey

theorem spaces_of_append {s : Bytes} {m n : Nat} (h : Line.spaces m ++ s ++ Line.spaces n = s) :
    m = 0 ∧ n = 0 := by
  have hlen := congrArg List.length h
  simp [Line.spaces] at hlen
  omega

/-- The spaces at the end of the file are dropped. -/
theorem rdropWhile_value {value : Bytes} (hvalue : Trimmed value) (after trail : Nat) :
    (Line.spaces after ++ value ++ Line.spaces trail).rdropWhile (· == 0x20) =
      if value = [] then [] else Line.spaces after ++ value := by
  split
  · next hnil =>
    rw [List.rdropWhile_eq_nil_iff, hnil]
    simp [Line.spaces]
  · next hnil =>
    apply rdropWhile_pad
    rw [List.getLast?_append_of_ne_nil _ hnil]
    exact hvalue.2

section Pair

variable {indent before after trail : Nat} {key value : Bytes} {terminated : Bool}

/-- The C string of the line ends before the `=`. -/
theorem parseLine_zero_in_key (hkey : IsKey key) (hzero : 0 ∈ key) :
    parseLine (lineText (.pair indent key before after value trail, terminated)) = none := by
  have hcut : lineText (.pair indent key before after value trail, terminated) =
      (Line.spaces indent ++ key).takeWhile (· ≠ 0) := by
    rw [lineText, Line.text, keyText, List.append_assoc, List.append_assoc]
    exact takeWhile_append_of_mem (List.mem_append_right _ hzero) _
  apply parseLine_of_not_mem
  intro hmem
  rw [hcut] at hmem
  have hmem' := (List.takeWhile_sublist _).subset hmem
  have hequals : (0x3d : UInt8) ∈ key := by simpa [Line.spaces] using hmem'
  exact hkey.no_equals hequals

theorem lineText_pair (hzero : 0 ∉ key) :
    lineText (.pair indent key before after value trail, terminated) =
      keyText indent key before ++ 0x3d ::
        ((Line.spaces after ++ value ++ Line.spaces trail) ++
          if terminated then [Stdio.newline] else []).takeWhile (· ≠ 0) := by
  have hfront : (0 : UInt8) ∉ keyText indent key before := by simp [keyText, hzero]
  rw [lineText, Line.text, List.append_assoc, takeWhile_append_of_not_mem hfront,
    List.cons_append, List.takeWhile_cons_of_pos (by decide)]

variable (hkey : IsKey key) (hnewline : Stdio.newline ∉ value)
  (hlen : key.length + before + (Line.spaces after ++ value ++ Line.spaces trail).length ≤ 510)
include hkey hnewline hlen

/-- The C string of the line ends inside of the value. -/
theorem parseLine_zero_in_value (hzero : 0 ∉ key) (hvzero : 0 ∈ value) :
    ∃ v, parseLine (lineText (.pair indent key before after value trail, terminated)) =
      some (key, v) ∧ v ≠ value := by
  have hrest : Stdio.newline ∉ Line.spaces after ++ value ++ Line.spaces trail := by
    have hne : Stdio.newline ≠ 0x20 := by decide
    simp [Line.spaces, hnewline, hne]
  have hmem : 0 ∈ Line.spaces after ++ value ++ Line.spaces trail := by simp [hvzero]
  have hsub := List.takeWhile_sublist (· ≠ 0)
    (l := Line.spaces after ++ value ++ Line.spaces trail)
  rw [lineText_pair hzero, takeWhile_append_of_mem hmem]
  refine ⟨_, parseLine_open hkey (fun h => hrest (hsub.subset h)) ?_, ?_⟩
  · have hle := hsub.length_le
    omega
  · intro heq
    have hv : (0 : UInt8) ∈ List.rdropWhile (· == 0x20)
        ((Line.spaces after ++ value ++ Line.spaces trail).takeWhile (· ≠ 0)) := by
      rw [heq]
      exact hvzero
    exact zero_not_mem_takeWhile _ ((List.rdropWhile_prefix _ _).subset hv)

/-- Everything behind `=` is stored, but for the spaces at the end of the file. -/
theorem parseLine_pair (hvalue : Trimmed value) (hzero : 0 ∉ key) (hvzero : 0 ∉ value) :
    parseLine (lineText (.pair indent key before after value trail, terminated)) =
      some (key, if terminated then Line.spaces after ++ value ++ Line.spaces trail
        else if value = [] then [] else Line.spaces after ++ value) := by
  have hrest : Stdio.newline ∉ Line.spaces after ++ value ++ Line.spaces trail := by
    have hne : Stdio.newline ≠ 0x20 := by decide
    simp [Line.spaces, hnewline, hne]
  have hnone : (0 : UInt8) ∉ Line.spaces after ++ value ++ Line.spaces trail := by
    simp [Line.spaces, hvzero]
  rw [lineText_pair hzero, takeWhile_append_of_not_mem hnone]
  cases terminated with
  | true => exact parseLine_terminated hkey hrest (by omega)
  | false =>
    simp only [Bool.false_eq_true, if_false, List.takeWhile_nil, List.append_nil]
    rw [parseLine_open hkey hrest (by omega), rdropWhile_value hvalue]

end Pair

/-- What is stored for a line with a key. -/
theorem parseLine_lineText_some {x : Line × Bool} (hok : x.1.Ok) (hshort : x.1.text.length ≤ 510)
    {key : Bytes} (hkey : x.1.key? = some key) :
    if 0 ∈ key then parseLine (lineText x) = none
    else ∃ v, parseLine (lineText x) = some (key, v) ∧ (v = x.1.value ↔ x.1.Tight x.2) := by
  obtain ⟨l, terminated⟩ := x
  cases l with
  | comment indent text => cases hkey
  | plain text => cases hkey
  | pair indent key' before after value trail =>
    cases hkey
    obtain ⟨hkey, hvalue, hnewline⟩ := hok
    have hlen : key.length + before + (Line.spaces after ++ value ++ Line.spaces trail).length ≤
        510 := by
      simp only [Line.text, keyText, List.length_append, List.length_replicate,
        List.length_cons] at hshort
      rw [List.length_append, List.length_append]
      omega
    split
    · next hzero => exact parseLine_zero_in_key hkey hzero
    · next hzero =>
      simp only [Line.Tight, Line.value, if_neg hzero]
      by_cases hvzero : 0 ∈ value
      · obtain ⟨v, hv, hne⟩ := parseLine_zero_in_value hkey hnewline hlen hzero hvzero
        exact ⟨v, hv, iff_of_false hne fun htight => htight.1 hvzero⟩
      · refine ⟨_, parseLine_pair hkey hnewline hlen hvalue hzero hvzero, ?_⟩
        cases terminated with
        | true =>
          simp only [if_true]
          constructor
          · exact fun heq => ⟨hvzero, spaces_of_append heq⟩
          · rintro ⟨-, rfl, rfl⟩
            simp [Line.spaces]
        | false =>
          simp only [Bool.false_eq_true, if_false]
          by_cases hnil : value = []
          · simp [hnil]
          · rw [if_neg hnil]
            simp [Line.spaces, hnil, hvzero]

/-! ## The whole file -/

theorem find_foldl_loadLine (c : MprpcConfig) (bufs : List Bytes) (k : Bytes) :
    (bufs.foldl loadLine c).m_configMap.find k =
      (c.m_configMap.find k).or ((bufs.filterMap parseLine).lookup k) := by
  induction bufs generalizing c with
  | nil => simp
  | cons buf bufs ih =>
    rw [List.foldl_cons, ih, loadLine]
    cases hbuf : parseLine buf with
    | none => rw [List.filterMap_cons_none hbuf]
    | some entry =>
      rw [List.filterMap_cons_some hbuf, UnorderedMap.find_insert, Option.or_assoc,
        List.lookup_cons]
      cases hk : k == entry.1 with
      | true => simp
      | false => simp

/-- The lines of a file that is being read, with the key of each and what is stored for it. -/
theorem lookup_stored {xs : List (Line × Bool)} (hok : ∀ x ∈ xs, x.1.Ok)
    (hshort : ∀ x ∈ xs, x.1.text.length ≤ 510) (k : Bytes) :
    ((xs.map lineText).filterMap parseLine).lookup k =
      (xs.find? fun x => x.1.key? == some k).bind
        fun x => (parseLine (lineText x)).map Prod.snd := by
  induction xs with
  | nil => rfl
  | cons x xs ih =>
    have ih := ih (fun y hy => hok y (List.mem_cons_of_mem _ hy))
      fun y hy => hshort y (List.mem_cons_of_mem _ hy)
    have hx := hok x List.mem_cons_self
    rw [List.map_cons, List.find?_cons]
    cases hkey : x.1.key? with
    | none =>
      rw [List.filterMap_cons_none (parseLine_lineText_none hx hkey), ih]
      rfl
    | some key =>
      have hstored := parseLine_lineText_some hx (hshort x List.mem_cons_self) hkey
      by_cases hk : key = k
      · subst hk
        simp only [beq_self_eq_true, Option.bind_some]
        split at hstored
        · next hzero =>
          -- no later line with this key is stored either
          rw [List.filterMap_cons_none hstored, ih, hstored]
          cases hfind : xs.find? fun y => y.1.key? == some key with
          | none => rfl
          | some y =>
            have hy := List.mem_of_find?_eq_some hfind
            have hykey : y.1.key? = some key := by simpa using List.find?_some hfind
            have hnone := parseLine_lineText_some (hok y (List.mem_cons_of_mem _ hy))
              (hshort y (List.mem_cons_of_mem _ hy)) hykey
            rw [if_pos hzero] at hnone
            rw [Option.bind_some, hnone]
        · obtain ⟨v, hv, -⟩ := hstored
          rw [List.filterMap_cons_some hv, List.lookup_cons_self, hv]
          rfl
      · have hne : (some key == some k) = false := by simpa using hk
        rw [hne, ← ih]
        split at hstored
        · rw [List.filterMap_cons_none hstored]
        · obtain ⟨v, hv, -⟩ := hstored
          rw [List.filterMap_cons_some hv, List.lookup_cons, beq_false_of_ne (Ne.symm hk)]

namespace ConfigFile

variable (file : ConfigFile)

theorem mem_of_mem_tagged {x : Line × Bool} (hx : x ∈ file.tagged) :
    x.1 ∈ file.lines ++ file.last.toList := by
  rw [tagged, List.mem_append, List.mem_map, List.mem_map] at hx
  rw [List.mem_append]
  obtain ⟨l, hl, rfl⟩ | ⟨l, hl, rfl⟩ := hx
  · exact Or.inl hl
  · exact Or.inr hl

theorem newline_not_mem {l : Line} (hok : l.Ok) : Stdio.newline ∉ l.text := by
  have hspace : Stdio.newline ≠ 0x20 := by decide
  have hhash : Stdio.newline ≠ 0x23 := by decide
  have hequals : Stdio.newline ≠ 0x3d := by decide
  cases l with
  | comment indent text =>
    have htext : Stdio.newline ∉ text := hok
    simp [Line.text, Line.spaces, hspace, hhash, htext]
  | plain text => exact hok.1
  | pair indent key before after value trail =>
    simp [Line.text, keyText, Line.spaces, hspace, hequals, hok.1.no_newline, hok.2.2]

/-- A line is read with one call of `fgets`. -/
theorem fits_of_mem {l : Line} (hl : l ∈ file.lines ++ file.last.toList) :
    Stdio.newline ∉ l.text ∧ l.text.length + 1 < sizeofBuf := by
  have hshort := file.short l hl
  refine ⟨newline_not_mem (file.ok l hl), ?_⟩
  show l.text.length + 1 < 512
  omega

/-- The loop sees the lines one after the other. -/
theorem LoadConfigFile_content (c : MprpcConfig) :
    LoadConfigFile c (some file.content) = some ((file.tagged.map lineText).foldl loadLine c) := by
  have hlines : ∀ line ∈ file.lines.map Line.text,
      Stdio.newline ∉ line ∧ line.length + 1 < sizeofBuf := by
    intro line hline
    obtain ⟨l, hl, rfl⟩ := List.mem_map.mp hline
    exact file.fits_of_mem (List.mem_append_left _ hl)
  have hlast : Stdio.newline ∉ file.last.elim [] Line.text ∧
      (file.last.elim [] Line.text).length + 1 < sizeofBuf := by
    cases hl : file.last with
    | none => exact ⟨List.not_mem_nil, by decide⟩
    | some l => exact file.fits_of_mem (by simp [hl])
  have hrounds : (file.lines.map Line.text).length + 2 ≤
      ((file.lines.map Line.text).flatMap (· ++ [Stdio.newline]) ++
        file.last.elim [] Line.text).length + 2 := by
    have hsum : (file.lines.map Line.text).length ≤
        ((file.lines.map Line.text).flatMap (· ++ [Stdio.newline])).length :=
      Stdio.length_le_flatMap _
    rw [List.length_append]
    omega
  have hend : ∀ d : MprpcConfig, loadLine d ((file.last.elim [] Line.text).takeWhile (· ≠ 0)) =
      ((file.last.toList.map (·, false)).map lineText).foldl loadLine d := by
    intro d
    cases file.last with
    | none => rfl
    | some l => simp [lineText]
  rw [LoadConfigFile, content, Stdio.readLoop_lines hlines hlast hrounds, hend, tagged]
  simp only [List.map_append, List.foldl_append, List.foldl_map]
  rfl

/-- What is read for a key. -/
theorem Load_eq (k : Bytes) :
    Load ((file.tagged.map lineText).foldl loadLine empty) k =
      ((file.first k).bind fun x => (parseLine (lineText x)).map Prod.snd).getD [] := by
  have hok : ∀ x ∈ file.tagged, x.1.Ok := fun x hx => file.ok _ (file.mem_of_mem_tagged hx)
  have hshort : ∀ x ∈ file.tagged, x.1.text.length ≤ 510 :=
    fun x hx => file.short _ (file.mem_of_mem_tagged hx)
  have hfind := find_foldl_loadLine empty (file.tagged.map lineText) k
  rw [lookup_stored hok hshort] at hfind
  rw [Load, hfind, first]
  cases (file.tagged.find? fun x => x.1.key? == some k).bind fun x =>
      (parseLine (lineText x)).map Prod.snd with
  | none => rfl
  | some v => rfl

/-- The value of one key is read as intended when its first line is tight, and only then. -/
theorem Load_eq_value_iff (k : Bytes) :
    Load ((file.tagged.map lineText).foldl loadLine empty) k = file.value k ↔
      ∀ x, file.first k = some x → x.1.Tight x.2 := by
  rw [Load_eq, value]
  cases hfirst : file.first k with
  | none => simp
  | some x =>
    have hmem := file.mem_of_mem_tagged (List.mem_of_find?_eq_some hfirst)
    have hkey : x.1.key? = some k := by simpa using List.find?_some hfirst
    have hstored := parseLine_lineText_some (file.ok _ hmem) (file.short _ hmem) hkey
    simp only [Option.bind_some, Option.elim_some, Option.some.injEq, forall_eq']
    split at hstored
    · next hzero =>
      rw [hstored]
      obtain ⟨l, terminated⟩ := x
      cases l with
      | comment indent text => cases hkey
      | plain text => cases hkey
      | pair indent key before after value trail =>
        cases hkey
        simp [Line.Tight, Line.value, hzero, eq_comm]
    · obtain ⟨v, hv, hiff⟩ := hstored
      rw [hv]
      exact hiff

/-- **A file is read as intended exactly when it is tight**: in the first line of each key no space
follows the `=`, and none stands in front of the newline. -/
theorem load_iff_tight :
    (∃ c, LoadConfigFile empty (some file.content) = some c ∧ ∀ k, Load c k = file.value k) ↔
      file.Tight := by
  rw [LoadConfigFile_content]
  constructor
  · rintro ⟨c, hc, hload⟩ k x hx
    cases hc
    exact (file.Load_eq_value_iff k).mp (hload k) x hx
  · intro htight
    exact ⟨_, rfl, fun k => (file.Load_eq_value_iff k).mpr fun x hx => htight k x hx⟩

end ConfigFile

/-! ## A space behind the equals sign -/

/-- `rpcserviceip = 127.0.0.1` -/
def spacedFile : ConfigFile where
  lines := [.pair 0 (ascii "rpcserviceip") 1 1 (ascii "127.0.0.1") 0]
  last := none
  ok := by
    intro l hl
    obtain rfl := List.mem_singleton.mp hl
    exact ⟨⟨by decide, by decide, by decide, by decide⟩, by decide, by decide⟩
  short := by decide

/-- The address is read with the space in front of it. -/
theorem spaced_misread :
    spacedFile.content = ascii "rpcserviceip = 127.0.0.1\n" ∧
      (∀ c, LoadConfigFile empty (some spacedFile.content) = some c →
        Load c (ascii "rpcserviceip") = ascii " 127.0.0.1") ∧
      ¬ ∃ c, LoadConfigFile empty (some spacedFile.content) = some c ∧
        ∀ k, Load c k = spacedFile.value k := by
  have hread : ∀ c, LoadConfigFile empty (some spacedFile.content) = some c →
      Load c (ascii "rpcserviceip") = ascii " 127.0.0.1" := by
    intro c hc
    rw [spacedFile.LoadConfigFile_content] at hc
    cases hc
    decide
  refine ⟨by decide, hread, ?_⟩
  rintro ⟨c, hc, hload⟩
  have hvalue := (hread c hc).symm.trans (hload (ascii "rpcserviceip"))
  exact absurd hvalue (by decide)

end CppInOne.Mprpc.MprpcConfig
