import CppInOne.Lib.ByteString
import CppInOne.Lib.Stdio

/-!
# The configuration of the connection pool

`ConnectionPool::LoadConfig` of `ConnectionPool.h` reads `mysql.ini` line by line into an array of
1024 bytes. A line is cut at its first `=` and at its newline, and nine keys are known. Positions
are kept in `int`s, where `npos` is -1.

A file is a sequence of lines without `=` and of lines `key=value`; comments are lines of either
kind.

## Main definitions

- `Config`, `LoadConfig` — the fields of the pool and the function of the source
- `ConfigFile`, `ConfigFile.value` — the format, and the value of the last line with a key

## Main results

- `LoadConfig_content` — every field is read back from the last line with its key
- `LoadConfig_zero` — but for what stands behind a zero byte in a value
-/

namespace CppInOne.ConnectionPool
open ByteString

/-! ## The function of the source -/

structure Config where
  _ip : List UInt8
  _port : UInt16
  _username : List UInt8
  _password : List UInt8
  _dbname : List UInt8
  _initSize : Int32
  _maxSize : Int32
  _maxIdleTime : Int32
  _connectionTimeout : Int32
  deriving DecidableEq, Repr

/-- `atoi(value.c_str())`. For a number that does not fit, C leaves the result open. -/
def atoi (unspecified : List UInt8 → Int32) (value : List UInt8) : Int32 :=
  let n := ByteString.atoi value
  if -2 ^ 31 ≤ n ∧ n < 2 ^ 31 then .ofInt n else unspecified value

/-- A position as an `int`. -/
def position : Option Nat → Int
  | none => -1
  | some i => i

/-- An `int` as a `size_t`. -/
def size_t (n : Int) : Nat := (n % 2 ^ 64).toNat

/-- `str.find(x, pos)` -/
def findFrom (str : List UInt8) (x : UInt8) (pos : Nat) : Option Nat :=
  (find (str.drop pos) x).map (pos + ·)

/-- The key and the value of a line, none if there is no `=`. -/
def splitLine (str : List UInt8) : Except Exception (Option (List UInt8 × List UInt8)) :=
  let idx := position (findFrom str 0x3d 0)
  if idx = -1 then .ok none
  else do
    let endidx := position (findFrom str Stdio.newline (size_t idx))
    let key ← substr str 0 (size_t idx)
    let value ← substr str (size_t (idx + 1)) (size_t (endidx - idx - 1))
    return some (key, value)

section

variable (unspecified : List UInt8 → Int32)

/-- The chain of comparisons. -/
def assign (c : Config) (key value : List UInt8) : Config :=
  if key = ascii "ip" then { c with _ip := value }
  else if key = ascii "port" then { c with _port := .ofInt (atoi unspecified value).toInt }
  else if key = ascii "username" then { c with _username := value }
  else if key = ascii "dbname" then { c with _dbname := value }
  else if key = ascii "password" then { c with _password := value }
  else if key = ascii "initSize" then { c with _initSize := atoi unspecified value }
  else if key = ascii "maxSize" then { c with _maxSize := atoi unspecified value }
  else if key = ascii "maxIdleTime" then { c with _maxIdleTime := atoi unspecified value }
  else if key = ascii "connectionTimeout" then
    { c with _connectionTimeout := atoi unspecified value }
  else c

/-- A round of the loop. -/
def loadLine (c : Except Exception Config) (line : List UInt8) : Except Exception Config := do
  let c ← c
  match ← splitLine line with
  | none => return c
  | some (key, value) => return assign unspecified c key value

/-- `file` is what `fopen` opens. An exception leaves the function. A loop that has not ended after
one round for each byte and two more would be `none`. -/
def LoadConfig (c : Config) (file : Option (List UInt8)) :
    Option (Except Exception (Config × Bool)) :=
  match file with
  | none => some (.ok (c, false))
  | some content =>
    (Stdio.readLoop 1024 (loadLine unspecified) (content.length + 2) (.ok c)
      (Stdio.fopen content)).map fun c => c.map (·, true)

end

/-! ## The fields -/

/-- The fields that hold strings. -/
inductive StringField where
  | ip | username | dbname | password
  deriving DecidableEq, Repr

/-- The fields that hold integers. -/
inductive IntField where
  | port | initSize | maxSize | maxIdleTime | connectionTimeout
  deriving DecidableEq, Repr

def StringField.key : StringField → List UInt8
  | ip => ascii "ip"
  | username => ascii "username"
  | dbname => ascii "dbname"
  | password => ascii "password"

def IntField.key : IntField → List UInt8
  | port => ascii "port"
  | initSize => ascii "initSize"
  | maxSize => ascii "maxSize"
  | maxIdleTime => ascii "maxIdleTime"
  | connectionTimeout => ascii "connectionTimeout"

/-- The numbers that the field can hold. -/
def IntField.InRange (n : Int) : IntField → Prop
  | port => 0 ≤ n ∧ n < 2 ^ 16
  | initSize | maxSize | maxIdleTime | connectionTimeout => -2 ^ 31 ≤ n ∧ n < 2 ^ 31

namespace Config

def string (c : Config) : StringField → List UInt8
  | .ip => c._ip
  | .username => c._username
  | .dbname => c._dbname
  | .password => c._password

def int (c : Config) : IntField → Int
  | .port => c._port.toNat
  | .initSize => c._initSize.toInt
  | .maxSize => c._maxSize.toInt
  | .maxIdleTime => c._maxIdleTime.toInt
  | .connectionTimeout => c._connectionTimeout.toInt

end Config

section Fields

variable (unspecified : List UInt8 → Int32)

/-- What the field holds behind a line with its key. -/
def IntField.read (value : List UInt8) : IntField → Int
  | port => (UInt16.ofInt (atoi unspecified value).toInt).toNat
  | initSize | maxSize | maxIdleTime | connectionTimeout => (atoi unspecified value).toInt

theorem atoi_of_numeral {value : List UInt8} {n : Int} (h : Numeral value n)
    (hn : -2 ^ 31 ≤ n ∧ n < 2 ^ 31) : (atoi unspecified value).toInt = n := by
  simp only [atoi, atoi_numeral h]
  rw [if_pos hn]
  exact Int32.toInt_ofInt_of_le hn.1 hn.2

theorem IntField.read_numeral {f : IntField} {value : List UInt8} {n : Int} (h : Numeral value n)
    (hn : f.InRange n) : f.read unspecified value = n := by
  cases f with
  | port =>
    obtain ⟨hlow, hhigh⟩ := hn
    have hatoi := atoi_of_numeral unspecified h ⟨by omega, by omega⟩
    simp only [IntField.read, hatoi, UInt16.ofInt, UInt16.toNat_ofNat']
    omega
  | initSize | maxSize | maxIdleTime | connectionTimeout => exact atoi_of_numeral unspecified h hn

/-- An assignment changes the string field with this key and no other. -/
theorem string_assign (c : Config) (key value : List UInt8) (f : StringField) :
    (assign unspecified c key value).string f = if key = f.key then value else c.string f := by
  split
  · rename_i hkey
    subst hkey
    cases f with
    | ip | username | dbname | password => rfl
  · rename_i hkey
    simp only [assign, apply_ite (Config.string · f)]
    cases f with
    | ip | username | dbname | password =>
      simp only [StringField.key] at hkey
      simp only [Config.string, if_neg hkey, ite_self]

theorem int_assign (c : Config) (key value : List UInt8) (f : IntField) :
    (assign unspecified c key value).int f =
      if key = f.key then f.read unspecified value else c.int f := by
  split
  · rename_i hkey
    subst hkey
    cases f with
    | port | initSize | maxSize | maxIdleTime | connectionTimeout => rfl
  · rename_i hkey
    simp only [assign, apply_ite (Config.int · f)]
    cases f with
    | port | initSize | maxSize | maxIdleTime | connectionTimeout =>
      simp only [IntField.key] at hkey
      simp only [Config.int, if_neg hkey, ite_self]

end Fields

/-! ## One line -/

theorem size_t_natCast {n : Nat} (hn : n < 2 ^ 64) : size_t n = n := by
  rw [size_t]
  omega

/-- The first `x` behind a part without it. -/
theorem findFrom_append_cons {s : List UInt8} {x : UInt8} (hs : x ∉ s) (t : List UInt8) :
    findFrom (s ++ x :: t) x 0 = some s.length := by
  simp [findFrom, find_append_cons hs]

theorem findFrom_eq_none {s : List UInt8} {x : UInt8} (hs : x ∉ s) (pos : Nat) :
    findFrom s x pos = none := by
  rw [findFrom, Option.map_eq_none_iff, find, List.findIdx?_eq_none_iff]
  intro c hc
  rw [beq_eq_false_iff_ne]
  rintro rfl
  exact hs (List.mem_of_mem_drop hc)

theorem splitLine_of_not_mem {str : List UInt8} (h : 0x3d ∉ str) : splitLine str = .ok none := by
  simp only [splitLine, findFrom_eq_none h, position, if_true]

/-- The line is cut at its first `=`. -/
theorem splitLine_pair {key : List UInt8} (hkey : 0x3d ∉ key) (hlen : key.length < 2 ^ 32)
    (rest : List UInt8) :
    splitLine (key ++ 0x3d :: rest) = .ok (some (key, rest.take (size_t
      (position (findFrom (key ++ 0x3d :: rest) Stdio.newline key.length) - key.length - 1)))) := by
  have hidx := findFrom_append_cons hkey rest
  have hstart : size_t ((key.length : Int) + 1) = key.length + 1 := by
    rw [size_t]
    omega
  generalize hend : findFrom (key ++ 0x3d :: rest) Stdio.newline key.length = e
  simp only [splitLine, hidx, position, size_t_natCast (show key.length < 2 ^ 64 by omega), hend,
    hstart]
  rw [if_neg (by omega), substr_ok (Nat.zero_le _), substr_ok (by simp)]
  simp [bind, Except.bind, pure, Except.pure, ← List.drop_drop]

section Pair

variable {key value : List UInt8} (hkey : 0x3d ∉ key) (hvalue : Stdio.newline ∉ value)
include hkey hvalue

/-- What stands in front of the newline is the value. -/
theorem splitLine_terminated (hlen : key.length + value.length + 2 < 2 ^ 32) :
    splitLine (key ++ 0x3d :: (value ++ [Stdio.newline])) = .ok (some (key, value)) := by
  have hend : findFrom (key ++ 0x3d :: (value ++ [Stdio.newline])) Stdio.newline key.length =
      some (key.length + (value.length + 1)) := by
    have hrest : Stdio.newline ∉ 0x3d :: value :=
      List.not_mem_cons_of_ne_of_not_mem (by decide) hvalue
    rw [findFrom, List.drop_left]
    exact congrArg (Option.map _) (find_append_cons hrest [])
  have hcount : size_t (((key.length + (value.length + 1) : Nat) : Int) - key.length - 1) =
      value.length := by
    rw [size_t]
    omega
  rw [splitLine_pair hkey (by omega), hend, position, hcount, List.take_left]

/-- Without a newline everything behind the `=` is the value. -/
theorem splitLine_open (hnewline : Stdio.newline ∉ key)
    (hlen : key.length + value.length + 2 < 2 ^ 32) :
    splitLine (key ++ 0x3d :: value) = .ok (some (key, value)) := by
  have hend : findFrom (key ++ 0x3d :: value) Stdio.newline key.length = none := by
    refine findFrom_eq_none (fun hmem => ?_) _
    obtain hmem | hmem := List.mem_append.mp hmem
    · exact hnewline hmem
    · exact List.not_mem_cons_of_ne_of_not_mem (by decide) hvalue hmem
  -- the difference of the positions is negative, and as a `size_t` it covers the whole rest
  have hcount : value.length ≤ size_t (-1 - (key.length : Int) - 1) := by
    rw [size_t]
    omega
  rw [splitLine_pair hkey (by omega), hend, position, List.take_of_length_le hcount]

end Pair

/-! ## The format -/

inductive Line where
  /-- A blank line, or any other line without `=`. -/
  | plain (text : List UInt8)
  | pair (key value : List UInt8)
  deriving DecidableEq, Repr

namespace Line

def text : Line → List UInt8
  | plain text => text
  | pair key value => key ++ 0x3d :: value

def Ok : Line → Prop
  | plain text => Stdio.newline ∉ text ∧ 0x3d ∉ text
  | pair key value => Stdio.newline ∉ key ∧ 0x3d ∉ key ∧ Stdio.newline ∉ value

instance (l : Line) : Decidable l.Ok :=
  match l with
  | plain _ => inferInstanceAs (Decidable (_ ∧ _))
  | pair _ _ => inferInstanceAs (Decidable (_ ∧ _))

/-- What the line says about this key. -/
def value? (key : List UInt8) : Line → Option (List UInt8)
  | plain _ => none
  | pair key' value => if key' = key then some value else none

theorem newline_not_mem {l : Line} (hok : l.Ok) : Stdio.newline ∉ l.text := by
  have hne : Stdio.newline ≠ 0x3d := by decide
  cases l with
  | plain text => exact hok.1
  | pair key value => simp [text, hok.1, hne, hok.2.2]

end Line

/-- The lines that end with a newline, and one behind them that does not. -/
structure ConfigFile where
  lines : List Line
  last : Option Line
  ok : ∀ l ∈ lines ++ last.toList, l.Ok
  short : ∀ l ∈ lines ++ last.toList, l.text.length ≤ 1022

namespace ConfigFile

def content (file : ConfigFile) : List UInt8 :=
  (file.lines.map Line.text).flatMap (· ++ [Stdio.newline]) ++ file.last.elim [] Line.text

/-- What the file says about a key: the value of the last line that has it. -/
def value (file : ConfigFile) (key : List UInt8) : Option (List UInt8) :=
  (file.lines ++ file.last.toList).reverse.findSome? (Line.value? key)

end ConfigFile

section Load

variable (unspecified : List UInt8 → Int32)

/-- What a line does: its text is a C string, which ends at a zero byte. -/
def Line.load (c : Config) : Line → Config
  | plain _ => c
  | pair key value =>
    if 0 ∈ key then c else assign unspecified c key (value.takeWhile (· ≠ 0))

theorem splitLine_prefix {key rest : List UInt8} {x : UInt8} (hkey : 0x3d ∉ key) (h : 0 ∈ key) :
    splitLine ((key ++ x :: rest).takeWhile (· ≠ 0)) = .ok none := by
  rw [takeWhile_append_of_mem h]
  exact splitLine_of_not_mem fun hmem => hkey ((List.takeWhile_sublist _).subset hmem)

/-- A round of the loop on a line, with its newline or without. -/
theorem loadLine_text {l : Line} (hok : l.Ok) (hshort : l.text.length ≤ 1022)
    {ending : List UInt8} (hending : ending = [Stdio.newline] ∨ ending = []) (c : Config) :
    loadLine unspecified (.ok c) ((l.text ++ ending).takeWhile (· ≠ 0)) =
      .ok (l.load unspecified c) := by
  cases l with
  | plain text =>
    have hequals : 0x3d ∉ (text ++ ending).takeWhile (· ≠ 0) := by
      intro hmem
      have hmem := (List.takeWhile_sublist _).subset hmem
      obtain rfl | rfl := hending
      · simp [hok.2, Stdio.newline] at hmem
      · simp [hok.2] at hmem
    simp only [loadLine, Line.text, splitLine_of_not_mem hequals]
    rfl
  | pair key value =>
    obtain ⟨hnewline, hkey, hvalue⟩ := hok
    have hlen : key.length + value.length + 1 ≤ 1022 := by
      simpa [Line.text, Nat.add_assoc] using hshort
    have htext : Line.text (.pair key value) ++ ending = key ++ 0x3d :: (value ++ ending) := by
      simp [Line.text]
    by_cases hzero : 0 ∈ key
    · simp only [loadLine, htext, splitLine_prefix hkey hzero, Line.load, if_pos hzero]
      rfl
    · have hsplit : splitLine ((key ++ 0x3d :: (value ++ ending)).takeWhile (· ≠ 0)) =
          .ok (some (key, value.takeWhile (· ≠ 0))) := by
        rw [takeWhile_append_of_not_mem hzero, List.takeWhile_cons_of_pos (by decide)]
        have hcut : (value.takeWhile (· ≠ 0)).length ≤ value.length :=
          (List.takeWhile_sublist _).length_le
        by_cases hvzero : 0 ∈ value
        · rw [takeWhile_append_of_mem hvzero]
          refine splitLine_open hkey (fun hmem => ?_) hnewline (by omega)
          exact hvalue ((List.takeWhile_sublist _).subset hmem)
        · rw [takeWhile_append_of_not_mem hvzero, takeWhile_eq_self hvzero]
          obtain rfl | rfl := hending
          · exact splitLine_terminated hkey hvalue (by omega)
          · rw [List.takeWhile_nil, List.append_nil]
            exact splitLine_open hkey hvalue hnewline (by omega)
      simp only [loadLine, htext, hsplit, Line.load, if_neg hzero]
      rfl

section Get

variable {β : Type*} (get : Config → β) {key : List UInt8} {read : List UInt8 → β}

/-- What a line does to a field. -/
theorem get_load (hzero : 0 ∉ key)
    (hassign : ∀ c k value, get (assign unspecified c k value) =
      if k = key then read value else get c) (c : Config) (l : Line) :
    get (l.load unspecified c) =
      ((l.value? key).map fun value => read (value.takeWhile (· ≠ 0))).getD (get c) := by
  cases l with
  | plain text => rfl
  | pair key' value =>
    simp only [Line.load, Line.value?]
    by_cases hkey : key' = key
    · rw [if_neg (hkey ▸ hzero), if_pos hkey, hassign, if_pos hkey]
      rfl
    · rw [if_neg hkey]
      split
      · rfl
      · rw [hassign, if_neg hkey]
        rfl

/-- The last line with a key decides what its field holds in the end. -/
theorem get_foldl_load (hzero : 0 ∉ key)
    (hassign : ∀ c k value, get (assign unspecified c k value) =
      if k = key then read value else get c) (c : Config) (ls : List Line) :
    get (ls.foldl (fun c l => l.load unspecified c) c) =
      ((ls.reverse.findSome? (Line.value? key)).map fun value =>
        read (value.takeWhile (· ≠ 0))).getD (get c) := by
  induction ls generalizing c with
  | nil => rfl
  | cons l ls ih =>
    rw [List.foldl_cons, ih, get_load unspecified get hzero hassign, List.reverse_cons,
      List.findSome?_append]
    cases ls.reverse.findSome? (Line.value? key) with
    | some value => rfl
    | none =>
      rw [Option.none_or, List.findSome?_singleton]
      rfl

end Get

/-! ## The whole file -/

/-- All lines one after the other. -/
def ConfigFile.load (c : Config) (file : ConfigFile) : Config :=
  (file.lines ++ file.last.toList).foldl (fun c l => l.load unspecified c) c

theorem string_load (c : Config) (file : ConfigFile) (f : StringField) :
    (file.load unspecified c).string f =
      ((file.value f.key).map fun value => value.takeWhile (· ≠ 0)).getD (c.string f) := by
  have hzero : 0 ∉ f.key := by
    cases f with
    | ip | username | dbname | password => decide
  exact get_foldl_load unspecified (fun c => c.string f) hzero
    (fun c k value => string_assign unspecified c k value f) c _

theorem int_load (c : Config) (file : ConfigFile) (f : IntField) :
    (file.load unspecified c).int f =
      ((file.value f.key).map fun value => f.read unspecified (value.takeWhile (· ≠ 0))).getD
        (c.int f) := by
  have hzero : 0 ∉ f.key := by
    cases f with
    | port | initSize | maxSize | maxIdleTime | connectionTimeout => decide
  exact get_foldl_load unspecified (fun c => c.int f) hzero
    (fun c k value => int_assign unspecified c k value f) c _

theorem foldl_loadLine {ls : List Line} (hok : ∀ l ∈ ls, l.Ok)
    (hshort : ∀ l ∈ ls, l.text.length ≤ 1022) (c : Config) :
    ls.foldl (fun c l => loadLine unspecified c ((l.text ++ [Stdio.newline]).takeWhile (· ≠ 0)))
      (.ok c) = .ok (ls.foldl (fun c l => l.load unspecified c) c) := by
  induction ls generalizing c with
  | nil => rfl
  | cons l ls ih =>
    rw [List.foldl_cons, loadLine_text unspecified (hok l List.mem_cons_self)
      (hshort l List.mem_cons_self) (.inl rfl)]
    exact ih (fun l hl => hok l (List.mem_cons_of_mem _ hl))
      (fun l hl => hshort l (List.mem_cons_of_mem _ hl)) _

/-- The loop loads the lines one after the other, and ends. -/
theorem LoadConfig_eq (c : Config) (file : ConfigFile) :
    LoadConfig unspecified c (some file.content) =
      some (.ok (file.load unspecified c, true)) := by
  have hfits {l : Line} (hl : l ∈ file.lines ++ file.last.toList) :
      Stdio.newline ∉ l.text ∧ l.text.length + 1 < 1024 := by
    have hshort := file.short l hl
    exact ⟨Line.newline_not_mem (file.ok l hl), by omega⟩
  have hlines : ∀ line ∈ file.lines.map Line.text,
      Stdio.newline ∉ line ∧ line.length + 1 < 1024 := by
    intro line hline
    obtain ⟨l, hl, rfl⟩ := List.mem_map.mp hline
    exact hfits (List.mem_append_left _ hl)
  have hlast : Stdio.newline ∉ file.last.elim [] Line.text ∧
      (file.last.elim [] Line.text).length + 1 < 1024 := by
    cases hl : file.last with
    | none => exact ⟨List.not_mem_nil, by decide⟩
    | some l => exact hfits (by simp [hl])
  have hrounds : (file.lines.map Line.text).length + 2 ≤ file.content.length + 2 := by
    have hsum := Stdio.length_le_flatMap (file.lines.map Line.text)
    rw [ConfigFile.content, List.length_append]
    omega
  have hloop := foldl_loadLine unspecified (fun l hl => file.ok l (List.mem_append_left _ hl))
    (fun l hl => file.short l (List.mem_append_left _ hl)) c
  -- behind the last newline a last round reads what is left, perhaps nothing
  have hend (d : Config) :
      loadLine unspecified (.ok d) ((file.last.elim [] Line.text).takeWhile (· ≠ 0)) =
        .ok (file.last.toList.foldl (fun c l => l.load unspecified c) d) := by
    cases hl : file.last with
    | none => rfl
    | some l =>
      have hmem : l ∈ file.lines ++ file.last.toList := by simp [hl]
      have hline := loadLine_text unspecified (file.ok l hmem) (file.short l hmem) (.inr rfl) d
      rwa [List.append_nil] at hline
  rw [ConfigFile.load, LoadConfig]
  rw [ConfigFile.content] at hrounds ⊢
  rw [Stdio.readLoop_lines hlines hlast hrounds, List.foldl_map, hloop, hend, List.foldl_append]
  rfl

/-- **A configuration is read back**: `LoadConfig` returns true, a string field holds the value of
the last line with its key up to the first zero byte in it, if any, and an integer field the number
that this value writes, if the field can hold it. A field without a line keeps what it held. -/
theorem LoadConfig_content (c : Config) (file : ConfigFile) :
    ∃ c', LoadConfig unspecified c (some file.content) = some (.ok (c', true)) ∧
      (∀ f : StringField,
        (file.value f.key = none → c'.string f = c.string f) ∧
        ∀ value, file.value f.key = some value →
          c'.string f = value.takeWhile (· ≠ 0) ∧ (0 ∉ value → c'.string f = value)) ∧
      ∀ f : IntField,
        (file.value f.key = none → c'.int f = c.int f) ∧
        ∀ value n, file.value f.key = some value → Numeral value n → f.InRange n →
          c'.int f = n := by
  refine ⟨_, LoadConfig_eq unspecified c file, fun f => ?_, fun f => ?_⟩
  · rw [string_load]
    refine ⟨fun hnone => ?_, fun value hvalue => ?_⟩
    · rw [hnone]
      rfl
    · rw [hvalue]
      exact ⟨rfl, takeWhile_eq_self⟩
  · rw [int_load]
    refine ⟨fun hnone => ?_, fun value n hvalue hn hrange => ?_⟩
    · rw [hnone]
      rfl
    · rw [hvalue, Option.map_some, Option.getD_some, takeWhile_eq_self (zero_not_mem_numeral hn)]
      exact IntField.read_numeral unspecified hn hrange

end Load

/-- The fields before anything has been read. -/
def unread : Config := ⟨[], 0, [], [], [], 0, 0, 0, 0⟩

/-- A port that is given twice, a password with the separator in it, and no newline at the end. -/
def portTwice : ConfigFile where
  lines := [.pair (ascii "port") (ascii "3306"), .plain (ascii "# chat"), .plain [],
    .pair (ascii "password") (ascii "a=b #1"), .pair (ascii "#port") (ascii "1")]
  last := some (.pair (ascii "port") (ascii "3307"))
  ok := by decide
  short := by decide

theorem LoadConfig_content_portTwice :
    portTwice.content = ascii "port=3306\n# chat\n\npassword=a=b #1\n#port=1\nport=3307" ∧
      ∃ c', LoadConfig (fun _ => 0) unread (some portTwice.content) = some (.ok (c', true)) ∧
        c'.int .port = 3307 ∧ c'.string .password = ascii "a=b #1" ∧ c'.string .ip = [] := by
  obtain ⟨c', hc', hstring, hint⟩ := LoadConfig_content (fun _ => 0) unread portTwice
  have hdigits : (ascii "3307").all isDigit = true := by decide
  have hnumeral : Numeral (ascii "3307") 3307 := .unsigned (by decide) (List.all_eq_true.mp hdigits)
  have hport : portTwice.value (ascii "port") = some (ascii "3307") := by decide
  have hpassword : portTwice.value (ascii "password") = some (ascii "a=b #1") := by decide
  refine ⟨by decide, c', hc', ?_, ?_, (hstring .ip).1 (by decide)⟩
  · exact (hint .port).2 _ _ hport hnumeral ⟨by decide, by decide⟩
  · exact ((hstring .password).2 _ hpassword).2 (by decide)

/-- A value with a zero byte in it. -/
def zeroInValue : ConfigFile where
  lines := [.pair (ascii "ip") [0x61, 0, 0x62]]
  last := none
  ok := by decide
  short := by decide

/-- The field holds the part in front of the zero byte only. -/
theorem LoadConfig_zero :
    zeroInValue.value (ascii "ip") = some [0x61, 0, 0x62] ∧
      ∀ c', LoadConfig (fun _ => 0) unread (some zeroInValue.content) = some (.ok (c', true)) →
        c'._ip = [0x61] := by
  refine ⟨by decide, fun c' hc' => ?_⟩
  rw [LoadConfig_eq] at hc'
  cases hc'
  decide

end CppInOne.ConnectionPool
