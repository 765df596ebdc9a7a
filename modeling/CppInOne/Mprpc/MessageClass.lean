import Mathlib.Data.List.Nodup
import Mathlib.Algebra.Order.BigOperators.Group.List
import Mathlib.Algebra.Order.Group.Nat
import Mathlib.Algebra.Ring.Nat
import CppInOne.Lib.Coder
import CppInOne.Mprpc.Protobuf

/-!
# Generated message classes

`protoc` writes the same functions for every message: `Clear`, `_InternalParse`,
`_InternalSerialize`, `ByteSizeLong` and `MergeFrom`. A class is here the list of its fields and
what `MergeFrom` does to them; the functions that read and write single values belong to the
protobuf runtime and are a parameter.

## Main definitions

- `Runtime`, `Runtime.Lawful` — what generated code calls, and what it relies on
- `Runtime.Compact` — nothing is written longer than it has to be
- `Field`, `MessageClass` — a generated class
- `MessageClass.Lawful` — tags, `store` and `MergeFrom` fit together

## Main results

- `MessageClass.InternalParse_eq_plain` — the loop over a repeated field is a short cut
- `MessageClass.InternalParse_append` — what an object has read before stays
- `MessageClass.InternalParse_serialize` — reading an encoding merges the object
-/

namespace CppInOne.Mprpc

variable {F M : Type}

/-! ## The runtime -/

/-- `F` are the fields of an `UnknownFieldSet`. -/
structure Runtime (F : Type) where
  /-- `ReadTag` -/
  tag : Coder UInt8 UInt32
  /-- `ReadVarint32`, `UInt32Size` -/
  varint32 : Coder UInt8 UInt32
  /-- `ReadVarint64` -/
  varint64 : Coder UInt8 UInt64
  /-- `InlineGreedyStringParser`, `BytesSize`: a length and the bytes -/
  bytes : Coder UInt8 Bytes
  LengthDelimitedSize : Nat → Nat
  /-- `UnknownFieldParse`, for a field with this tag -/
  unknown : UInt32 → Coder UInt8 F
  tagOf : F → UInt32

structure Runtime.Lawful (rt : Runtime F) : Prop where
  tag_domain : ∀ t, rt.tag.Domain t
  tag_write : ∀ {b : UInt8}, b < 128 → rt.tag.write b.toUInt32 = [b]
  varint32_domain : ∀ v, rt.varint32.Domain v
  varint64_domain : ∀ v, rt.varint64.Domain v
  varint64_one : rt.varint64.size 1 = 1
  bytes_domain : ∀ {b}, rt.bytes.size b < 2 ^ 31 → rt.bytes.Domain b
  bytes_size : ∀ b, rt.bytes.size b = rt.LengthDelimitedSize b.length
  le_lengthDelimitedSize : ∀ n, n ≤ rt.LengthDelimitedSize n
  unknown_read : ∀ {t bs u rest}, (rt.unknown t).read bs = some (u, rest) →
    rt.tagOf u = t ∧ (rt.unknown t).Domain u

/-- A runtime that writes nothing longer than it has to. -/
structure Runtime.Compact (rt : Runtime F) : Prop where
  tag : rt.tag.Tight
  varint32 : rt.varint32.Tight
  bytes : rt.bytes.Tight
  unknown : ∀ t, (rt.unknown t).Tight
  varint32_mono : ∀ {v w}, v ≤ w → rt.varint32.size v ≤ rt.varint32.size w
  /-- The wire type stands in the low bits of the first byte. -/
  tag_low : ∀ {b bs t rest}, rt.tag.read (b :: bs) = some (t, rest) → t &&& 7 = b.toUInt32 &&& 7
  /-- There is no wire type 7. -/
  unknown_seven : ∀ {t bs}, t &&& 7 = 7 → (rt.unknown t).read bs = none

/-! ## Classes -/

structure Field (M : Type) where
  Value : Type
  number : UInt32
  wireType : UInt32
  /-- The byte that the `case` in `_InternalParse` compares the tag with. -/
  tag : UInt8
  repeated : Bool
  coder : Coder UInt8 Value
  /-- The values that `_InternalSerialize` writes. -/
  values : M → List Value
  /-- What `ByteSizeLong` adds for the field. -/
  byteSize : M → Nat
  /-- What the `case` does with a value that it has read. -/
  store : M → Value → Option M

structure MessageClass (M : Type) where
  fields : List (Field M)
  /-- The members after `Clear`. -/
  default : M
  MergeFrom : M → M → M

/-- An object of a class. -/
structure Object (F M : Type) where
  fields : M
  /-- `_internal_metadata_.unknown_fields()` -/
  unknown : List F
  deriving DecidableEq, Repr

namespace Field

def Matches (tag : UInt32) (f : Field M) : Bool :=
  tag >>> 3 == f.number && tag.toUInt8 == f.tag

/-- The tag that the `Write` functions put in front of a value. -/
def writtenTag (f : Field M) : UInt32 := f.number <<< 3 ||| f.wireType

def readOne (f : Field M) (msg : M) (ptr : Bytes) : Option (M × Bytes) :=
  (f.coder.read ptr).bind fun x => (f.store msg x.1).map fun m => (m, x.2)

/-- `DataAvailable` and `ExpectTag` -/
def expectTag (f : Field M) (ptr : Bytes) : Bool := ptr.head? == some f.tag

/-- The `do` loop of a repeated field. -/
def readRepeated (f : Field M) : Nat → M → Bytes → Option (M × Bytes)
  | 0, _, _ => none
  | n + 1, msg, ptr => (f.readOne msg ptr).bind fun x =>
      if f.expectTag x.2 then f.readRepeated n x.1 x.2.tail else some x

/-- The `case` of the field, behind the tag. -/
def parse (f : Field M) (msg : M) (ptr : Bytes) : Option (M × Bytes) :=
  if f.repeated then f.readRepeated ptr.length msg ptr else f.readOne msg ptr

def serialize (rt : Runtime F) (f : Field M) (msg : M) : Bytes :=
  (f.values msg).flatMap fun v => rt.tag.write f.writtenTag ++ f.coder.write v

/-- The number, the wire type and the byte in the `case` belong together, and `ByteSizeLong`
adds what `_InternalSerialize` writes. -/
structure Lawful (f : Field M) : Prop where
  number_eq : f.tag.toUInt32 >>> 3 = f.number
  writtenTag_eq : f.writtenTag = f.tag.toUInt32
  tag_lt : f.tag < 128
  byteSize_eq : ∀ m, f.byteSize m = ((f.values m).map fun v => 1 + f.coder.size v).sum
  domain : ∀ {v}, f.coder.size v < 2 ^ 31 → f.coder.Domain v

end Field

/-- How `_InternalParse` ends before the end of its input. -/
inductive Stop where
  | failure
  /-- `SetLastTag`: the callers take the object only at the end of the input -/
  | lastTag (tag : UInt32)
  deriving DecidableEq, Repr

/-- An unknown field with its tag. -/
def Runtime.writeUnknown (rt : Runtime F) (u : F) : Bytes :=
  rt.tag.write (rt.tagOf u) ++ (rt.unknown (rt.tagOf u)).write u

namespace MessageClass

def find (c : MessageClass M) (tag : UInt32) : Option (Field M) := c.fields.find? (·.Matches tag)

def Clear (c : MessageClass M) : Object F M := ⟨c.default, []⟩

/-- `handle_unusual` -/
def unusual (rt : Runtime F) (tag : UInt32) (msg : Object F M) (ptr : Bytes) :
    Except Stop (Object F M × Bytes) :=
  if tag &&& 7 = 4 ∨ tag = 0 then .error (.lastTag tag)
  else
    match (rt.unknown tag).read ptr with
    | none => .error .failure
    | some (u, ptr) => .ok ({ msg with unknown := msg.unknown ++ [u] }, ptr)

/-- One pass of the `while` loop, with the code of the cases. -/
def pass (rt : Runtime F) (c : MessageClass M)
    (parse : Field M → M → Bytes → Option (M × Bytes)) (msg : Object F M) (ptr : Bytes) :
    Except Stop (Object F M × Bytes) :=
  match rt.tag.read ptr with
  | none => .error .failure
  | some (tag, ptr) =>
    match c.find tag with
    | none => unusual rt tag msg ptr
    | some f =>
      match parse f msg.fields ptr with
      | none => .error .failure
      | some (m, ptr) => .ok ({ msg with fields := m }, ptr)

def InternalParse (rt : Runtime F) (c : MessageClass M) (msg : Object F M) (ptr : Bytes) :
    Except Stop (Object F M) :=
  ReadLoop.run (pass rt c Field.parse) msg ptr

def InternalSerialize (rt : Runtime F) (c : MessageClass M) (msg : Object F M) : Bytes :=
  c.fields.flatMap (fun f => f.serialize rt msg.fields) ++ msg.unknown.flatMap rt.writeUnknown

def ByteSizeLong (rt : Runtime F) (c : MessageClass M) (msg : Object F M) : Nat :=
  (c.fields.map fun f => f.byteSize msg.fields).sum +
    (msg.unknown.map fun u => rt.tag.size (rt.tagOf u) + (rt.unknown (rt.tagOf u)).size u).sum

def mergeFrom (c : MessageClass M) (msg src : Object F M) : Object F M :=
  ⟨c.MergeFrom msg.fields src.fields, msg.unknown ++ src.unknown⟩

/-- The runtime refuses to serialize more than `INT_MAX` bytes. -/
def SerializeToString (rt : Runtime F) (c : MessageClass M) (msg : Object F M) : Option Bytes :=
  if c.ByteSizeLong rt msg < 2 ^ 31 then some (c.InternalSerialize rt msg) else none

def ParseFromString (rt : Runtime F) (c : MessageClass M) (data : Bytes) :
    Option (Object F M) :=
  (c.InternalParse rt c.Clear data).toOption

/-! ## Lawful classes -/

/-- No `case` of the class takes this field. -/
structure Foreign (rt : Runtime F) (c : MessageClass M) (u : F) : Prop where
  domain : (rt.unknown (rt.tagOf u)).Domain u
  find_eq_none : c.find (rt.tagOf u) = none
  usual : ¬ (rt.tagOf u &&& 7 = 4 ∨ rt.tagOf u = 0)

/-- `Nested` is what the objects inside an object have to satisfy. -/
structure WellFormed (rt : Runtime F) (c : MessageClass M) (Nested : M → Prop)
    (msg : Object F M) : Prop where
  nested : Nested msg.fields
  foreign : ∀ u ∈ msg.unknown, c.Foreign rt u

structure Lawful (c : MessageClass M) (Nested : M → Prop) : Prop where
  field : ∀ f ∈ c.fields, f.Lawful
  nodup : (c.fields.map (·.tag)).Nodup
  merge_default : ∀ m, c.MergeFrom c.default m = m
  nested_default : Nested c.default
  nested_store : ∀ f ∈ c.fields, ∀ {m v m'}, Nested m → f.store m v = some m' → Nested m'
  store_values : ∀ m m', Nested m' → (∀ f ∈ c.fields, ∀ v ∈ f.values m', f.coder.size v < 2 ^ 31) →
    c.fields.foldlM (fun m f => (f.values m').foldlM f.store m) m = some (c.MergeFrom m m')

variable {rt : Runtime F} {c : MessageClass M} {Nested : M → Prop}
  {parse : Field M → M → Bytes → Option (M × Bytes)} {msg msg' : Object F M} {ptr rest : Bytes}

theorem mem_of_find {tag : UInt32} {f : Field M} (h : c.find tag = some f) : f ∈ c.fields :=
  List.mem_of_find?_eq_some h

/-- A field is found under its tag. -/
theorem Lawful.find_tag (hc : c.Lawful Nested) {f : Field M} (hf : f ∈ c.fields) :
    c.find f.tag.toUInt32 = some f := by
  have hmatches : f.Matches f.tag.toUInt32 = true := by
    simp [Field.Matches, (hc.field f hf).number_eq]
  obtain ⟨g, hg⟩ := Option.isSome_iff_exists.mp (List.find?_isSome.mpr ⟨f, hf, hmatches⟩)
  have htag : g.tag = f.tag := by
    have hsome := List.find?_some hg
    simp only [Field.Matches, UInt8.toUInt8_toUInt32, Bool.and_eq_true, beq_iff_eq] at hsome
    exact hsome.2.symm
  obtain rfl := List.inj_on_of_nodup_map hc.nodup (mem_of_find hg) hf htag
  exact hg

/-! ## One pass -/

/-- Everything that a pass can do without stopping. -/
theorem pass_cases (h : pass rt c parse msg ptr = .ok (msg', rest)) :
    ∃ tag after, rt.tag.read ptr = some (tag, after) ∧
      ((∃ f m, c.find tag = some f ∧ parse f msg.fields after = some (m, rest) ∧
          msg' = { msg with fields := m }) ∨
        (c.find tag = none ∧ ¬ (tag &&& 7 = 4 ∨ tag = 0) ∧
          ∃ u, (rt.unknown tag).read after = some (u, rest) ∧
            msg' = { msg with unknown := msg.unknown ++ [u] })) := by
  rw [pass] at h
  split at h
  · cases h
  next tag after htag =>
  refine ⟨tag, after, htag, ?_⟩
  split at h
  · next hfind =>
    rw [unusual] at h
    split at h
    · cases h
    next husual =>
    split at h
    · cases h
    next u left hread =>
    obtain ⟨rfl, rfl⟩ := Prod.mk.inj (Except.ok.inj h)
    exact .inr ⟨hfind, husual, u, hread, rfl⟩
  · next f hfind =>
    split at h
    · cases h
    next m left hparse =>
    obtain ⟨rfl, rfl⟩ := Prod.mk.inj (Except.ok.inj h)
    exact .inl ⟨f, m, hfind, hparse, rfl⟩

theorem pass_field {tag : UInt32} {after : Bytes} {f : Field M} {m : M}
    (htag : rt.tag.read ptr = some (tag, after)) (hfind : c.find tag = some f)
    (hparse : parse f msg.fields after = some (m, rest)) :
    pass rt c parse msg ptr = .ok ({ msg with fields := m }, rest) := by
  simp only [pass, htag, hfind, hparse]

theorem pass_unknown {tag : UInt32} {after : Bytes} {u : F}
    (htag : rt.tag.read ptr = some (tag, after)) (hfind : c.find tag = none)
    (husual : ¬ (tag &&& 7 = 4 ∨ tag = 0)) (hread : (rt.unknown tag).read after = some (u, rest)) :
    pass rt c parse msg ptr = .ok ({ msg with unknown := msg.unknown ++ [u] }, rest) := by
  simp only [pass, htag, hfind, unusual, if_neg husual, hread]

theorem shrinks_pass
    (hparse : ∀ {f m ptr m' rest}, parse f m ptr = some (m', rest) → rest.length < ptr.length) :
    ReadLoop.Shrinks (pass rt c parse) := by
  intro msg ptr msg' rest h
  obtain ⟨tag, after, htag, ⟨f, m, -, hm, -⟩ | ⟨-, -, u, hu, -⟩⟩ := pass_cases h
  · exact (hparse hm).trans (rt.tag.length_lt htag)
  · exact ((rt.unknown tag).length_lt hu).trans (rt.tag.length_lt htag)

end MessageClass

namespace Field

variable {f : Field M} {m m' : M} {ptr rest : Bytes}

theorem readOne_eq_some :
    f.readOne m ptr = some (m', rest) ↔
      ∃ v, f.coder.read ptr = some (v, rest) ∧ f.store m v = some m' := by
  simp only [readOne, Option.bind_eq_some_iff, Option.map_eq_some_iff, Prod.exists,
    Prod.mk.injEq]
  grind

theorem readOne_length_lt (h : f.readOne m ptr = some (m', rest)) : rest.length < ptr.length := by
  obtain ⟨v, hread, -⟩ := readOne_eq_some.mp h
  exact f.coder.length_lt hread

theorem readRepeated_length_lt {n : Nat} (h : f.readRepeated n m ptr = some (m', rest)) :
    rest.length < ptr.length := by
  induction n generalizing m ptr with
  | zero => cases h
  | succ n ih =>
    obtain ⟨x, hone, hx⟩ := Option.bind_eq_some_iff.mp h
    have hlt := readOne_length_lt hone
    split at hx
    · have htail := ih hx
      have hle : x.2.tail.length ≤ x.2.length := by simp
      omega
    · obtain rfl := Option.some.inj hx
      exact hlt

theorem parse_length_lt (h : f.parse m ptr = some (m', rest)) : rest.length < ptr.length := by
  rw [parse] at h
  split at h
  · exact readRepeated_length_lt h
  · exact readOne_length_lt h

/-- Each round takes a byte off, so the rounds do not run out. -/
theorem readRepeated_of_le {n : Nat} (hn : ptr.length ≤ n) (m : M) :
    f.readRepeated n m ptr = f.readRepeated ptr.length m ptr := by
  induction n using Nat.strongRecOn generalizing m ptr with
  | ind n ih =>
    obtain hlen | hlen := Nat.eq_or_lt_of_le hn
    · rw [hlen]
    obtain ⟨n, rfl⟩ : ∃ k, n = k + 1 := ⟨n - 1, by omega⟩
    cases hone : f.readOne m ptr with
    | none =>
      have hnone : ∀ k, f.readRepeated k m ptr = none := by
        rintro (_ | k)
        · rfl
        · rw [readRepeated, hone, Option.bind_none]
      rw [hnone, hnone]
    | some x =>
      obtain ⟨m', rest⟩ := x
      have hlt := readOne_length_lt hone
      obtain ⟨k, hk⟩ : ∃ k, ptr.length = k + 1 := ⟨ptr.length - 1, by omega⟩
      have htail : rest.tail.length ≤ k := by
        rw [List.length_tail]
        omega
      have hn' : f.readRepeated n m' rest.tail = f.readRepeated rest.tail.length m' rest.tail :=
        ih n (by omega) (by omega) m'
      rw [hk, readRepeated, readRepeated, hone, Option.bind_some, Option.bind_some, hn',
        ih k (by omega) htail m']

end Field

namespace MessageClass

variable {rt : Runtime F} {c : MessageClass M} {Nested : M → Prop} {msg msg' : Object F M}

theorem shrinks_plain : ReadLoop.Shrinks (pass rt c Field.readOne) :=
  shrinks_pass Field.readOne_length_lt

theorem shrinks_parse : ReadLoop.Shrinks (pass rt c Field.parse) :=
  shrinks_pass Field.parse_length_lt

/-- A pass over one value does not look behind the value. -/
theorem extends_plain : ReadLoop.Extends (pass rt c Field.readOne) := by
  intro msg ptr msg' rest h cs
  obtain ⟨tag, after, htag, ⟨f, m, hfind, hm, rfl⟩ | ⟨hfind, husual, u, hu, rfl⟩⟩ := pass_cases h
  · obtain ⟨v, hread, hstore⟩ := Field.readOne_eq_some.mp hm
    exact pass_field (rt.tag.read_append htag cs) hfind
      (Field.readOne_eq_some.mpr ⟨v, f.coder.read_append hread cs, hstore⟩)
  · exact pass_unknown (rt.tag.read_append htag cs) hfind husual
      ((rt.unknown tag).read_append hu cs)

/-! ## The loop over a repeated field -/

/-- The pass has read a value of a repeated field and stands before the next one. -/
def readsOn (rt : Runtime F) (c : MessageClass M) (ptr rest : Bytes) : Bool :=
  ((rt.tag.read ptr).bind fun x => c.find x.1).any fun f => f.repeated && f.expectTag rest

theorem ne_nil_of_readsOn {ptr rest : Bytes} (h : readsOn rt c ptr rest = true) : rest ≠ [] := by
  rintro rfl
  simp [readsOn, Field.expectTag] at h

theorem read_tag (hrt : rt.Lawful) {b : UInt8} (hb : b < 128) (rest : Bytes) :
    rt.tag.read (b :: rest) = some (b.toUInt32, rest) := by
  have hread := rt.tag.read_write (hrt.tag_domain b.toUInt32) rest
  rwa [hrt.tag_write hb] at hread

theorem pass_parse_eq (hrt : rt.Lawful) (hc : c.Lawful Nested) (msg : Object F M) (ptr : Bytes) :
    pass rt c Field.parse msg ptr = (pass rt c Field.readOne msg ptr).bind fun x =>
      if readsOn rt c ptr x.2 then pass rt c Field.parse x.1 x.2 else .ok x := by
  cases htag : rt.tag.read ptr with
  | none => simp [pass, htag, Except.bind]
  | some x =>
    obtain ⟨tag, after⟩ := x
    cases hfind : c.find tag with
    | none =>
      -- an unknown field is read in the same way by both
      have hon : ∀ rest, readsOn rt c ptr rest = false := by simp [readsOn, htag, hfind]
      simp only [pass, htag, hfind, unusual, hon, Bool.false_eq_true, if_false]
      split
      · rfl
      · cases (rt.unknown tag).read after <;> rfl
    | some f =>
      have hon : ∀ rest, readsOn rt c ptr rest = (f.repeated && f.expectTag rest) := by
        simp [readsOn, htag, hfind]
      simp only [hon]
      cases hone : f.readOne msg.fields after with
      | none =>
        have hparse : f.parse msg.fields after = none := by
          rw [Field.parse]
          split
          · cases after.length with
            | zero => rfl
            | succ n => rw [Field.readRepeated, hone, Option.bind_none]
          · exact hone
        simp only [pass, htag, hfind, hparse, hone]
        rfl
      | some x =>
        obtain ⟨m, rest⟩ := x
        have hplain : pass rt c Field.readOne msg ptr = .ok ({ msg with fields := m }, rest) :=
          pass_field htag hfind hone
        rw [hplain]
        have hlt := Field.readOne_length_lt hone
        obtain ⟨n, hn⟩ : ∃ n, after.length = n + 1 := ⟨after.length - 1, by omega⟩
        -- either more values of the field follow at once, or the field ends here
        by_cases hmore : f.repeated && f.expectTag rest
        · simp only [Except.bind, if_pos hmore]
          rw [Bool.and_eq_true] at hmore
          obtain ⟨t, rfl⟩ : ∃ t, rest = f.tag :: t := by
            simpa [Field.expectTag, List.head?_eq_some_iff] using hmore.2
          -- reading on from the tag that follows is the next pass
          have hmem := mem_of_find hfind
          have hread := read_tag hrt ((hc.field f hmem).tag_lt) t
          have hsame : f.parse msg.fields after = f.parse m t := by
            simp only [Field.parse, if_pos hmore.1]
            rw [hn, Field.readRepeated, hone, Option.bind_some, if_pos hmore.2, List.tail_cons]
            exact Field.readRepeated_of_le (by simp at hlt; omega) m
          simp only [pass, htag, hfind, hread, hc.find_tag hmem, hsame]
        · simp only [Except.bind, if_neg hmore]
          have hsame : f.parse msg.fields after = some (m, rest) := by
            rw [Field.parse]
            split
            · next hrep =>
              have hno : f.expectTag rest ≠ true := by simpa [hrep] using hmore
              rw [hn, Field.readRepeated, hone, Option.bind_some, if_neg hno]
            · exact hone
          exact pass_field htag hfind hsame

/-- **The loop over a repeated field is a short cut.** `_InternalParse` reads the same object as
a loop that goes back to the `switch` after every value. -/
theorem InternalParse_eq_plain (hrt : rt.Lawful) (hc : c.Lawful Nested) (msg : Object F M)
    (ptr : Bytes) :
    c.InternalParse rt msg ptr = ReadLoop.run (pass rt c Field.readOne) msg ptr :=
  ReadLoop.run_eq_of_greedy shrinks_plain shrinks_parse
    (fun _ ptr x => readsOn rt c ptr x.2 = true) (fun _ _ _ => ne_nil_of_readsOn)
    (pass_parse_eq hrt hc) msg ptr

/-- What an object has read before stays, whatever it reads next. -/
theorem InternalParse_append (hrt : rt.Lawful) (hc : c.Lawful Nested) {bs : Bytes}
    (h : c.InternalParse rt msg bs = .ok msg') (cs : Bytes) :
    c.InternalParse rt msg (bs ++ cs) = c.InternalParse rt msg' cs := by
  rw [InternalParse_eq_plain hrt hc] at h ⊢
  rw [InternalParse_eq_plain hrt hc]
  exact ReadLoop.run_append shrinks_plain extends_plain h cs

/-! ## Reading an encoding -/

/-- The values of one field. -/
theorem run_values (hrt : rt.Lawful) (hc : c.Lawful Nested) {f : Field M} (hf : f ∈ c.fields)
    {vs : List f.Value} (hvs : ∀ v ∈ vs, f.coder.Domain v) {m m' : M}
    (hstore : vs.foldlM f.store m = some m') (us : List F) (rest : Bytes) :
    ReadLoop.run (pass rt c Field.readOne) ⟨m, us⟩
        (vs.flatMap (fun v => rt.tag.write f.writtenTag ++ f.coder.write v) ++ rest) =
      ReadLoop.run (pass rt c Field.readOne) ⟨m', us⟩ rest := by
  induction vs generalizing m with
  | nil =>
    obtain rfl := Option.some.inj hstore
    rfl
  | cons v vs ih =>
    obtain ⟨m₁, hv, hstore⟩ := Option.bind_eq_some_iff.mp hstore
    rw [← ih (fun v hv => hvs v (List.mem_cons_of_mem _ hv)) hstore, List.flatMap_cons]
    simp only [List.append_assoc]
    refine ReadLoop.run_pass shrinks_plain ?_
    have htag := rt.tag.read_write (hrt.tag_domain f.writtenTag)
    have hfind := hc.find_tag hf
    rw [← (hc.field f hf).writtenTag_eq] at hfind
    have hread := f.coder.read_write (hvs v List.mem_cons_self)
    exact pass_field (htag _) hfind (Field.readOne_eq_some.mpr ⟨v, hread _, hv⟩)

/-- The fields, one after another. -/
theorem run_fields (hrt : rt.Lawful) (hc : c.Lawful Nested) {fs : List (Field M)}
    (hfs : ∀ f ∈ fs, f ∈ c.fields) {src : M}
    (hdom : ∀ f ∈ fs, ∀ v ∈ f.values src, f.coder.Domain v) {m m' : M}
    (hstore : fs.foldlM (fun m f => (f.values src).foldlM f.store m) m = some m')
    (us : List F) (rest : Bytes) :
    ReadLoop.run (pass rt c Field.readOne) ⟨m, us⟩
        (fs.flatMap (fun f => f.serialize rt src) ++ rest) =
      ReadLoop.run (pass rt c Field.readOne) ⟨m', us⟩ rest := by
  induction fs generalizing m with
  | nil =>
    obtain rfl := Option.some.inj hstore
    rfl
  | cons f fs ih =>
    obtain ⟨m₁, hf, hstore⟩ := Option.bind_eq_some_iff.mp hstore
    rw [List.flatMap_cons, List.append_assoc, Field.serialize,
      run_values hrt hc (hfs f List.mem_cons_self) (hdom f List.mem_cons_self) hf]
    exact ih (fun f hf => hfs f (List.mem_cons_of_mem _ hf))
      (fun f hf => hdom f (List.mem_cons_of_mem _ hf)) hstore

/-- The unknown fields. -/
theorem run_unknown (hrt : rt.Lawful) {us : List F} (hus : ∀ u ∈ us, c.Foreign rt u)
    (msg : Object F M) (rest : Bytes) :
    ReadLoop.run (pass rt c Field.readOne) msg (us.flatMap rt.writeUnknown ++ rest) =
      ReadLoop.run (pass rt c Field.readOne) { msg with unknown := msg.unknown ++ us } rest := by
  induction us generalizing msg with
  | nil => rw [List.append_nil, List.flatMap_nil, List.nil_append]
  | cons u us ih =>
    obtain ⟨hdom, hfind, husual⟩ := hus u List.mem_cons_self
    have htag := rt.tag.read_write (hrt.tag_domain (rt.tagOf u))
    have hread : ∀ after, pass rt c Field.readOne msg
        (rt.tag.write (rt.tagOf u) ++ ((rt.unknown (rt.tagOf u)).write u ++ after)) =
          .ok ({ msg with unknown := msg.unknown ++ [u] }, after) :=
      fun after => pass_unknown (htag _) hfind husual
        ((rt.unknown (rt.tagOf u)).read_write hdom after)
    rw [List.flatMap_cons, Runtime.writeUnknown, List.append_assoc, List.append_assoc,
      ReadLoop.run_pass shrinks_plain (hread _),
      ih fun u hu => hus u (List.mem_cons_of_mem _ hu)]
    simp

/-! ## Sizes -/

theorem size_writtenTag (hrt : rt.Lawful) (hc : c.Lawful Nested) {f : Field M}
    (hf : f ∈ c.fields) : (rt.tag.write f.writtenTag).length = 1 := by
  rw [(hc.field f hf).writtenTag_eq, hrt.tag_write ((hc.field f hf).tag_lt), List.length_singleton]

theorem length_serialize (hrt : rt.Lawful) (hc : c.Lawful Nested) {f : Field M}
    (hf : f ∈ c.fields) (m : M) : (f.serialize rt m).length = f.byteSize m := by
  simp [(hc.field f hf).byteSize_eq, Field.serialize, List.length_flatMap,
    size_writtenTag hrt hc hf, Coder.size_eq]

/-- `ByteSizeLong` announces the number of bytes that `_InternalSerialize` writes. -/
theorem ByteSizeLong_eq (hrt : rt.Lawful) (hc : c.Lawful Nested) (msg : Object F M) :
    c.ByteSizeLong rt msg = (c.InternalSerialize rt msg).length := by
  have hfields : c.fields.map (fun f => f.byteSize msg.fields) =
      c.fields.map fun f => (f.serialize rt msg.fields).length :=
    List.map_congr_left fun f hf => (length_serialize hrt hc hf msg.fields).symm
  simp [ByteSizeLong, InternalSerialize, hfields, List.length_flatMap, Runtime.writeUnknown,
    Coder.size_eq]

/-- No value is longer than the object. -/
theorem size_le_ByteSizeLong (hc : c.Lawful Nested) (rt : Runtime F) (msg : Object F M)
    {f : Field M} (hf : f ∈ c.fields) {v : f.Value} (hv : v ∈ f.values msg.fields) :
    f.coder.size v ≤ c.ByteSizeLong rt msg := by
  have hvalue : 1 + f.coder.size v ≤ f.byteSize msg.fields := by
    rw [(hc.field f hf).byteSize_eq]
    exact List.single_le_sum (by simp) _ (List.mem_map_of_mem hv)
  have hfield : f.byteSize msg.fields ≤ (c.fields.map fun f => f.byteSize msg.fields).sum :=
    List.single_le_sum (by simp) _ (List.mem_map_of_mem hf)
  rw [ByteSizeLong]
  omega

/-! ## Merging and round trips -/

theorem mergeFrom_Clear (hc : c.Lawful Nested) (msg : Object F M) :
    c.mergeFrom c.Clear msg = msg := by
  rw [mergeFrom, Clear, hc.merge_default, List.nil_append]

/-- Reading the encoding of an object has the effect of `MergeFrom`. -/
theorem InternalParse_serialize (hrt : rt.Lawful) (hc : c.Lawful Nested) {src : Object F M}
    (hsrc : c.WellFormed rt Nested src) (hsize : c.ByteSizeLong rt src < 2 ^ 31)
    (msg : Object F M) :
    c.InternalParse rt msg (c.InternalSerialize rt src) = .ok (c.mergeFrom msg src) := by
  have hvalue : ∀ f ∈ c.fields, ∀ v ∈ f.values src.fields, f.coder.size v < 2 ^ 31 :=
    fun f hf v hv => (size_le_ByteSizeLong hc rt src hf hv).trans_lt hsize
  have hstore := hc.store_values msg.fields src.fields hsrc.nested hvalue
  rw [InternalParse_eq_plain hrt hc, InternalSerialize,
    run_fields (m := msg.fields) hrt hc (fun _ hf => hf)
      (fun f hf v hv => (hc.field f hf).domain (hvalue f hf v hv)) hstore,
    ← List.append_nil (src.unknown.flatMap _), run_unknown hrt hsrc.foreign]
  rfl

theorem SerializeToString_eq_some {data : Bytes} :
    c.SerializeToString rt msg = some data ↔
      c.ByteSizeLong rt msg < 2 ^ 31 ∧ c.InternalSerialize rt msg = data := by
  simp [SerializeToString]

theorem ParseFromString_eq_some {data : Bytes} :
    c.ParseFromString rt data = some msg ↔ c.InternalParse rt c.Clear data = .ok msg := by
  rw [ParseFromString]
  cases c.InternalParse rt c.Clear data <;> simp [Except.toOption]

/-- An object that was read is well-formed. -/
theorem wellFormed_of_parse (hrt : rt.Lawful) (hc : c.Lawful Nested) {data : Bytes}
    (hmsg : c.WellFormed rt Nested msg) (h : c.InternalParse rt msg data = .ok msg') :
    c.WellFormed rt Nested msg' := by
  rw [InternalParse_eq_plain hrt hc] at h
  refine ReadLoop.run_invariant shrinks_plain ?_ hmsg h
  rintro msg ptr msg' rest ⟨hnested, hforeign⟩ hpass
  obtain ⟨tag, after, -, ⟨f, m, hfind, hm, rfl⟩ | ⟨hfind, husual, u, hu, rfl⟩⟩ :=
    pass_cases hpass
  · obtain ⟨v, -, hstore⟩ := Field.readOne_eq_some.mp hm
    exact ⟨hc.nested_store f (mem_of_find hfind) hnested hstore, hforeign⟩
  · obtain ⟨rfl, hdom⟩ := hrt.unknown_read hu
    refine ⟨hnested, ?_⟩
    simp only [List.mem_append, List.mem_singleton]
    rintro u' (hu' | rfl)
    · exact hforeign u' hu'
    · exact ⟨hdom, hfind, husual⟩

theorem wellFormed_Clear (hc : c.Lawful Nested) : c.WellFormed rt Nested c.Clear :=
  ⟨hc.nested_default, by simp [Clear]⟩

theorem ParseFromString_SerializeToString (hrt : rt.Lawful) (hc : c.Lawful Nested)
    (hmsg : c.WellFormed rt Nested msg) {data : Bytes}
    (h : c.SerializeToString rt msg = some data) : c.ParseFromString rt data = some msg := by
  obtain ⟨hsize, rfl⟩ := SerializeToString_eq_some.mp h
  have hparse := InternalParse_serialize hrt hc hmsg hsize c.Clear
  rw [mergeFrom_Clear hc] at hparse
  exact ParseFromString_eq_some.mpr hparse

/-- Concatenating an encoding to any input merges the object into what the input holds. -/
theorem ParseFromString_append (hrt : rt.Lawful) (hc : c.Lawful Nested) {data tail : Bytes}
    {src : Object F M} (h : c.ParseFromString rt data = some msg)
    (hsrc : c.WellFormed rt Nested src) (htail : c.SerializeToString rt src = some tail) :
    c.ParseFromString rt (data ++ tail) = some (c.mergeFrom msg src) := by
  obtain ⟨hsize, rfl⟩ := SerializeToString_eq_some.mp htail
  rw [ParseFromString_eq_some] at h ⊢
  rw [InternalParse_append hrt hc h]
  exact InternalParse_serialize hrt hc hsrc hsize msg

end MessageClass

end CppInOne.Mprpc
