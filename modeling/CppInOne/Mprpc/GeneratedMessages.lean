import CppInOne.Mprpc.MessageClass

/-!
# The messages of `rpcheader.proto`, `user.proto` and `friend.proto`

Each class with its own fields, tags and `MergeFrom`, as in the `.pb.cc` files. The five kinds of
fields that occur are written once.

## Main results

- `RpcHeader.lawful` and its like — the generated functions of each class fit together
-/

namespace CppInOne.Mprpc

variable {F M : Type}

/-! ## Kinds of fields -/

section Fields

variable (rt : Runtime F) (number : UInt32) (tag : UInt8)

/-- A `bytes` field. -/
def bytesField (get : M → Bytes) (set : M → Bytes → M) : Field M where
  Value := Bytes
  number := number
  wireType := 2
  tag := tag
  repeated := false
  coder := rt.bytes
  values m := if 0 < (get m).length then [get m] else []
  byteSize m := if 0 < (get m).length then 1 + rt.bytes.size (get m) else 0
  store m v := some (set m v)

/-- A `uint32` field. -/
def uint32Field (get : M → UInt32) (set : M → UInt32 → M) : Field M where
  Value := UInt32
  number := number
  wireType := 0
  tag := tag
  repeated := false
  coder := rt.varint32
  values m := if get m ≠ 0 then [get m] else []
  byteSize m := if get m ≠ 0 then 1 + rt.varint32.size (get m) else 0
  store m v := some (set m v)

/-- An `int32` is written with the sign extended to 64 bits, and what is read is cut off. -/
def int32Coder : Coder UInt8 Int32 :=
  rt.varint64.map (fun v => v.toUInt32.toInt32) fun v => v.toInt64.toUInt64

/-- An `int32` field. -/
def int32Field (get : M → Int32) (set : M → Int32 → M) : Field M where
  Value := Int32
  number := number
  wireType := 0
  tag := tag
  repeated := false
  coder := int32Coder rt
  values m := if get m ≠ 0 then [get m] else []
  byteSize m := if get m ≠ 0 then 1 + (int32Coder rt).size (get m) else 0
  store m v := some (set m v)

def boolCoder : Coder UInt8 Bool := rt.varint64.map (· != 0) fun b => if b then 1 else 0

/-- A `bool` field. -/
def boolField (get : M → Bool) (set : M → Bool → M) : Field M where
  Value := Bool
  number := number
  wireType := 0
  tag := tag
  repeated := false
  coder := boolCoder rt
  values m := if get m then [get m] else []
  byteSize m := if get m then 1 + 1 else 0
  store m v := some (set m v)

/-- A field that holds an object of another class; `mutable_` makes one where there is none. -/
def messageField {N : Type} (inner : MessageClass N) (get : M → Option (Object F N))
    (set : M → Object F N → M) : Field M where
  Value := Bytes
  number := number
  wireType := 2
  tag := tag
  repeated := false
  coder := rt.bytes
  values m := (get m).toList.map (inner.InternalSerialize rt)
  byteSize m :=
    match get m with
    | none => 0
    | some msg => 1 + rt.LengthDelimitedSize (inner.ByteSizeLong rt msg)
  store m v := (inner.InternalParse rt ((get m).getD inner.Clear) v).toOption.map (set m)

/-- A `repeated bytes` field. -/
def repeatedBytesField (get : M → List Bytes) (set : M → List Bytes → M) : Field M where
  Value := Bytes
  number := number
  wireType := 2
  tag := tag
  repeated := true
  coder := rt.bytes
  values := get
  byteSize m := 1 * (get m).length + ((get m).map rt.bytes.size).sum
  store m v := some (set m (get m ++ [v]))

end Fields

/-! ## `rpcheader.pb.cc` -/

def RpcHeader.messageClass (rt : Runtime F) : MessageClass RpcHeader where
  fields :=
    [bytesField rt 1 10 (·.service_name) fun m v => { m with service_name := v },
      bytesField rt 2 18 (·.method_name) fun m v => { m with method_name := v },
      uint32Field rt 3 24 (·.args_size) fun m v => { m with args_size := v }]
  default := ⟨[], [], 0⟩
  MergeFrom msg src :=
    { service_name := if 0 < src.service_name.length then src.service_name else msg.service_name
      method_name := if 0 < src.method_name.length then src.method_name else msg.method_name
      args_size := if src.args_size ≠ 0 then src.args_size else msg.args_size }

namespace fixbug

/-! ## `user.pb.cc` -/

/-- The class is also in `friend.pb.cc`. -/
structure ResultCode where
  errcode : Int32
  errmsg : Bytes
  deriving DecidableEq, Repr

def ResultCode.messageClass (rt : Runtime F) : MessageClass ResultCode where
  fields :=
    [int32Field rt 1 8 (·.errcode) fun m v => { m with errcode := v },
      bytesField rt 2 18 (·.errmsg) fun m v => { m with errmsg := v }]
  default := ⟨0, []⟩
  MergeFrom msg src :=
    { errcode := if src.errcode ≠ 0 then src.errcode else msg.errcode
      errmsg := if 0 < src.errmsg.length then src.errmsg else msg.errmsg }

/-- `_internal_mutable_result()->MergeFrom` where the other object has a result. -/
def mergeResult (rt : Runtime F) (result src : Option (Object F ResultCode)) :
    Option (Object F ResultCode) :=
  match src with
  | none => result
  | some src => some ((ResultCode.messageClass rt).mergeFrom
      (result.getD (ResultCode.messageClass rt).Clear) src)

structure LoginRequest where
  name : Bytes
  pwd : Bytes
  deriving DecidableEq, Repr

def LoginRequest.messageClass (rt : Runtime F) : MessageClass LoginRequest where
  fields :=
    [bytesField rt 1 10 (·.name) fun m v => { m with name := v },
      bytesField rt 2 18 (·.pwd) fun m v => { m with pwd := v }]
  default := ⟨[], []⟩
  MergeFrom msg src :=
    { name := if 0 < src.name.length then src.name else msg.name
      pwd := if 0 < src.pwd.length then src.pwd else msg.pwd }

structure LoginResponse (F : Type) where
  result : Option (Object F ResultCode)
  sucess : Bool
  deriving DecidableEq, Repr

def LoginResponse.messageClass (rt : Runtime F) : MessageClass (LoginResponse F) where
  fields :=
    [messageField rt 1 10 (ResultCode.messageClass rt) (·.result)
        fun m v => { m with result := some v },
      boolField rt 2 16 (·.sucess) fun m v => { m with sucess := v }]
  default := ⟨none, false⟩
  MergeFrom msg src :=
    { result := mergeResult rt msg.result src.result
      sucess := if src.sucess then src.sucess else msg.sucess }

structure RegisterRequest where
  id : UInt32
  name : Bytes
  pwd : Bytes
  deriving DecidableEq, Repr

def RegisterRequest.messageClass (rt : Runtime F) : MessageClass RegisterRequest where
  fields :=
    [uint32Field rt 1 8 (·.id) fun m v => { m with id := v },
      bytesField rt 2 18 (·.name) fun m v => { m with name := v },
      bytesField rt 3 26 (·.pwd) fun m v => { m with pwd := v }]
  default := ⟨0, [], []⟩
  MergeFrom msg src :=
    { id := if src.id ≠ 0 then src.id else msg.id
      name := if 0 < src.name.length then src.name else msg.name
      pwd := if 0 < src.pwd.length then src.pwd else msg.pwd }

structure RegisterResponse (F : Type) where
  result : Option (Object F ResultCode)
  sucess : Bool
  deriving DecidableEq, Repr

def RegisterResponse.messageClass (rt : Runtime F) : MessageClass (RegisterResponse F) where
  fields :=
    [messageField rt 1 10 (ResultCode.messageClass rt) (·.result)
        fun m v => { m with result := some v },
      boolField rt 2 16 (·.sucess) fun m v => { m with sucess := v }]
  default := ⟨none, false⟩
  MergeFrom msg src :=
    { result := mergeResult rt msg.result src.result
      sucess := if src.sucess then src.sucess else msg.sucess }

/-! ## `friend.pb.cc` -/

structure GetFriendsListRequest where
  userid : UInt32
  deriving DecidableEq, Repr

def GetFriendsListRequest.messageClass (rt : Runtime F) : MessageClass GetFriendsListRequest where
  fields := [uint32Field rt 1 8 (·.userid) fun m v => { m with userid := v }]
  default := ⟨0⟩
  MergeFrom msg src := { userid := if src.userid ≠ 0 then src.userid else msg.userid }

structure GetFriendsListResponse (F : Type) where
  result : Option (Object F ResultCode)
  friends : List Bytes
  deriving DecidableEq, Repr

def GetFriendsListResponse.messageClass (rt : Runtime F) :
    MessageClass (GetFriendsListResponse F) where
  fields :=
    [messageField rt 1 10 (ResultCode.messageClass rt) (·.result)
        fun m v => { m with result := some v },
      repeatedBytesField rt 2 18 (·.friends) fun m v => { m with friends := v }]
  default := ⟨none, []⟩
  MergeFrom msg src :=
    { result := mergeResult rt msg.result src.result
      friends := msg.friends ++ src.friends }

end fixbug

/-! ## Lawful fields -/

variable {rt : Runtime F} {number : UInt32} {tag : UInt8}

/-- A `case` number and the byte behind it, for a wire type. -/
def TagOf (number wireType : UInt32) (tag : UInt8) : Prop :=
  tag.toUInt32 >>> 3 = number ∧ number <<< 3 ||| wireType = tag.toUInt32 ∧ tag < 128

instance (number wireType : UInt32) (tag : UInt8) : Decidable (TagOf number wireType tag) :=
  inferInstanceAs (Decidable (_ ∧ _))

theorem bytesField_lawful (hrt : rt.Lawful) (htag : TagOf number 2 tag) (get : M → Bytes)
    (set : M → Bytes → M) : (bytesField rt number tag get set).Lawful where
  number_eq := htag.1
  writtenTag_eq := htag.2.1
  tag_lt := htag.2.2
  byteSize_eq m := by
    simp only [bytesField]
    split <;> simp
  domain := hrt.bytes_domain

theorem uint32Field_lawful (hrt : rt.Lawful) (htag : TagOf number 0 tag) (get : M → UInt32)
    (set : M → UInt32 → M) : (uint32Field rt number tag get set).Lawful where
  number_eq := htag.1
  writtenTag_eq := htag.2.1
  tag_lt := htag.2.2
  byteSize_eq m := by
    simp only [uint32Field]
    split <;> simp
  domain _ := hrt.varint32_domain _

/-- Extending the sign and cutting off gives the number back. -/
theorem int32_domain (hrt : rt.Lawful) (v : Int32) : (int32Coder rt).Domain v := by
  refine ⟨hrt.varint64_domain _, ?_⟩
  have hext : v.toInt64.toUInt64.toUInt32 = v.toUInt32 := by
    apply UInt32.toBitVec_inj.mp
    apply BitVec.eq_of_getLsbD_eq
    intro i hi
    simp [BitVec.getLsbD_signExtend, hi]
    omega
  show v.toInt64.toUInt64.toUInt32.toInt32 = v
  rw [hext]
  rfl

theorem int32Field_lawful (hrt : rt.Lawful) (htag : TagOf number 0 tag) (get : M → Int32)
    (set : M → Int32 → M) : (int32Field rt number tag get set).Lawful where
  number_eq := htag.1
  writtenTag_eq := htag.2.1
  tag_lt := htag.2.2
  byteSize_eq m := by
    simp only [int32Field]
    split <;> simp
  domain _ := int32_domain hrt _

theorem boolField_lawful (hrt : rt.Lawful) (htag : TagOf number 0 tag) (get : M → Bool)
    (set : M → Bool → M) : (boolField rt number tag get set).Lawful where
  number_eq := htag.1
  writtenTag_eq := htag.2.1
  tag_lt := htag.2.2
  byteSize_eq m := by
    simp only [boolField]
    split
    · next hget => simp [hget, boolCoder, Coder.map, hrt.varint64_one]
    · rfl
  domain := by
    rintro (_ | _) -
    · exact ⟨hrt.varint64_domain _, rfl⟩
    · exact ⟨hrt.varint64_domain _, rfl⟩

theorem messageField_lawful (hrt : rt.Lawful) (htag : TagOf number 2 tag) {N : Type}
    {inner : MessageClass N} {Nested : N → Prop} (hinner : inner.Lawful Nested)
    (get : M → Option (Object F N)) (set : M → Object F N → M) :
    (messageField rt number tag inner get set).Lawful where
  number_eq := htag.1
  writtenTag_eq := htag.2.1
  tag_lt := htag.2.2
  byteSize_eq m := by
    simp only [messageField]
    cases get m with
    | none => rfl
    | some msg => simp [hrt.bytes_size, MessageClass.ByteSizeLong_eq hrt hinner]
  domain := hrt.bytes_domain

theorem repeatedBytesField_lawful (hrt : rt.Lawful) (htag : TagOf number 2 tag)
    (get : M → List Bytes) (set : M → List Bytes → M) :
    (repeatedBytesField rt number tag get set).Lawful where
  number_eq := htag.1
  writtenTag_eq := htag.2.1
  tag_lt := htag.2.2
  byteSize_eq m := by
    simp only [repeatedBytesField]
    induction get m with
    | nil => rfl
    | cons v vs ih =>
      simp only [List.map_cons, List.sum_cons, List.length_cons] at ih ⊢
      omega
  domain := hrt.bytes_domain

/-! ## What the cases do with the values that are written -/

theorem bytesField_store (get : M → Bytes) (set : M → Bytes → M) (m src : M) :
    ((bytesField rt number tag get set).values src).foldlM
        (bytesField rt number tag get set).store m =
      some (if 0 < (get src).length then set m (get src) else m) := by
  simp only [bytesField]
  split <;> rfl

theorem uint32Field_store (get : M → UInt32) (set : M → UInt32 → M) (m src : M) :
    ((uint32Field rt number tag get set).values src).foldlM
        (uint32Field rt number tag get set).store m =
      some (if get src ≠ 0 then set m (get src) else m) := by
  simp only [uint32Field]
  split <;> rfl

theorem int32Field_store (get : M → Int32) (set : M → Int32 → M) (m src : M) :
    ((int32Field rt number tag get set).values src).foldlM
        (int32Field rt number tag get set).store m =
      some (if get src ≠ 0 then set m (get src) else m) := by
  simp only [int32Field]
  split <;> rfl

theorem boolField_store (get : M → Bool) (set : M → Bool → M) (m src : M) :
    ((boolField rt number tag get set).values src).foldlM
        (boolField rt number tag get set).store m =
      some (if get src then set m (get src) else m) := by
  simp only [boolField]
  split <;> rfl

/-- An object inside is merged, or made if there is none. -/
theorem messageField_store (hrt : rt.Lawful) {N : Type} {inner : MessageClass N}
    {Nested : N → Prop} (hinner : inner.Lawful Nested) (get : M → Option (Object F N))
    (set : M → Object F N → M) (m src : M) (hsrc : ∀ r ∈ get src, inner.WellFormed rt Nested r)
    (hsize : ∀ v ∈ (messageField rt number tag inner get set).values src,
      rt.bytes.size v < 2 ^ 31) :
    ((messageField rt number tag inner get set).values src).foldlM
        (messageField rt number tag inner get set).store m =
      some ((get src).elim m fun r => set m (inner.mergeFrom ((get m).getD inner.Clear) r)) := by
  simp only [messageField] at hsize ⊢
  cases hget : get src with
  | none => rfl
  | some r =>
    have hlen := hsize (inner.InternalSerialize rt r)
      (by rw [hget]; exact List.mem_singleton_self _)
    have hle := hrt.le_lengthDelimitedSize (inner.InternalSerialize rt r).length
    rw [← hrt.bytes_size] at hle
    have hparse := MessageClass.InternalParse_serialize hrt hinner (hsrc r hget)
      (by rw [MessageClass.ByteSizeLong_eq hrt hinner]; omega) ((get m).getD inner.Clear)
    simp [hparse, Except.toOption]

theorem repeatedBytesField_store (get : M → List Bytes) (set : M → List Bytes → M)
    (hget : ∀ m l, get (set m l) = l) (hset : ∀ m l l', set (set m l) l' = set m l')
    (hself : ∀ m, set m (get m) = m) (m src : M) :
    ((repeatedBytesField rt number tag get set).values src).foldlM
        (repeatedBytesField rt number tag get set).store m =
      some (set m (get m ++ get src)) := by
  simp only [repeatedBytesField]
  generalize get src = vs
  induction vs generalizing m with
  | nil => simp [hself]
  | cons v vs ih =>
    rw [List.foldlM_cons]
    simp [ih, hget, hset]

/-- The object inside stays well-formed. -/
theorem messageField_nested (hrt : rt.Lawful) {N : Type} {inner : MessageClass N}
    {Nested : N → Prop} (hinner : inner.Lawful Nested) {get : M → Option (Object F N)}
    {set : M → Object F N → M} {m m' : M} {v : Bytes}
    (hm : ∀ r ∈ get m, inner.WellFormed rt Nested r)
    (h : (messageField rt number tag inner get set).store m v = some m') :
    ∃ r, inner.WellFormed rt Nested r ∧ m' = set m r := by
  obtain ⟨r, hr, rfl⟩ := Option.map_eq_some_iff.mp h
  refine ⟨r, ?_, rfl⟩
  have hstart : inner.WellFormed rt Nested ((get m).getD inner.Clear) := by
    cases hget : get m with
    | none => exact MessageClass.wellFormed_Clear hinner
    | some r₀ => exact hm r₀ hget
  cases hparse : inner.InternalParse rt ((get m).getD inner.Clear) v with
  | error e => rw [hparse] at hr; cases hr
  | ok r₁ =>
    rw [hparse] at hr
    obtain rfl := Option.some.inj hr
    exact MessageClass.wellFormed_of_parse hrt hinner hstart hparse

/-! ## Lawful classes -/

theorem bytes_or_nil (b : Bytes) : (if 0 < b.length then b else []) = b := by
  cases b <;> simp

theorem value_or_zero {α : Type} [Zero α] [DecidableEq α] (v : α) :
    (if v ≠ 0 then v else 0) = v := by
  by_cases hv : v = 0 <;> simp [hv]

theorem RpcHeader.lawful (hrt : rt.Lawful) :
    (RpcHeader.messageClass rt).Lawful fun _ => True where
  field := by
    simp only [RpcHeader.messageClass, List.forall_mem_cons, List.not_mem_nil, false_imp_iff,
      implies_true, and_true]
    exact ⟨bytesField_lawful hrt (by decide) _ _,
      bytesField_lawful hrt (by decide) _ _,
      uint32Field_lawful hrt (by decide) _ _⟩
  nodup := by
    show ([10, 18, 24] : List UInt8).Nodup
    decide
  merge_default m := by
    simp only [RpcHeader.messageClass, bytes_or_nil, value_or_zero]
  nested_default := trivial
  nested_store := fun _ _ _ _ _ _ _ => trivial
  store_values m src _ _ := by
    simp only [RpcHeader.messageClass, List.foldlM_cons, List.foldlM_nil, bytesField_store,
      uint32Field_store, Option.bind_eq_bind, Option.bind_some, Option.pure_def]
    congr 1
    split_ifs <;> rfl

namespace fixbug

theorem ResultCode.lawful (hrt : rt.Lawful) :
    (ResultCode.messageClass rt).Lawful fun _ => True where
  field := by
    simp only [ResultCode.messageClass, List.forall_mem_cons, List.not_mem_nil, false_imp_iff,
      implies_true, and_true]
    exact ⟨int32Field_lawful hrt (by decide) _ _,
      bytesField_lawful hrt (by decide) _ _⟩
  nodup := by
    show ([8, 18] : List UInt8).Nodup
    decide
  merge_default m := by
    simp only [ResultCode.messageClass, bytes_or_nil, value_or_zero]
  nested_default := trivial
  nested_store := fun _ _ _ _ _ _ _ => trivial
  store_values m src _ _ := by
    simp only [ResultCode.messageClass, List.foldlM_cons, List.foldlM_nil, bytesField_store,
      int32Field_store, Option.bind_eq_bind, Option.bind_some, Option.pure_def]
    congr 1
    split_ifs <;> rfl

theorem mergeResult_none (hrt : rt.Lawful) (src : Option (Object F ResultCode)) :
    mergeResult rt none src = src := by
  cases src with
  | none => rfl
  | some r =>
    rw [mergeResult, Option.getD_none, MessageClass.mergeFrom_Clear (ResultCode.lawful hrt)]

/-- The result inside, where there is one, has no unknown field that its class knows. -/
def ResultWellFormed (rt : Runtime F) (result : Option (Object F ResultCode)) : Prop :=
  ∀ r ∈ result, (ResultCode.messageClass rt).WellFormed rt (fun _ => True) r

theorem LoginRequest.lawful (hrt : rt.Lawful) :
    (LoginRequest.messageClass rt).Lawful fun _ => True where
  field := by
    simp only [LoginRequest.messageClass, List.forall_mem_cons, List.not_mem_nil, false_imp_iff,
      implies_true, and_true]
    exact ⟨bytesField_lawful hrt (by decide) _ _,
      bytesField_lawful hrt (by decide) _ _⟩
  nodup := by
    show ([10, 18] : List UInt8).Nodup
    decide
  merge_default m := by
    simp only [LoginRequest.messageClass, bytes_or_nil]
  nested_default := trivial
  nested_store := fun _ _ _ _ _ _ _ => trivial
  store_values m src _ _ := by
    simp only [LoginRequest.messageClass, List.foldlM_cons, List.foldlM_nil, bytesField_store,
      Option.bind_eq_bind, Option.bind_some, Option.pure_def]
    congr 1
    split_ifs <;> rfl

/-- The three responses hold a result and one more field. -/
theorem lawful_of_result (hrt : rt.Lawful) {get : M → Option (Object F ResultCode)}
    {set : M → Object F ResultCode → M} {f : Field M} {default : M} {merge : M → M → M}
    (hset : ∀ m r, get (set m r) = some r) (hf : f.Lawful) (htag : f.tag ≠ 10)
    (hkeep : ∀ {m v m'}, f.store m v = some m' → get m' = get m) (hdefault : get default = none)
    (hmerge_default : ∀ m, merge default m = m)
    (hmerge : ∀ m src, (f.values src).foldlM f.store
        ((get src).elim m fun r => set m ((ResultCode.messageClass rt).mergeFrom
          ((get m).getD (ResultCode.messageClass rt).Clear) r)) = some (merge m src)) :
    MessageClass.Lawful
      ⟨[messageField rt 1 10 (ResultCode.messageClass rt) get set, f], default, merge⟩
      fun m => ResultWellFormed rt (get m) where
  field := by
    simp only [List.forall_mem_cons, List.not_mem_nil, false_imp_iff, implies_true, and_true]
    exact ⟨messageField_lawful hrt (by decide) (ResultCode.lawful hrt) _ _, hf⟩
  nodup := by
    show [10, f.tag].Nodup
    simpa using htag.symm
  merge_default := hmerge_default
  nested_default := by simp [ResultWellFormed, hdefault]
  nested_store := by
    simp only [List.forall_mem_cons, List.not_mem_nil, false_imp_iff, implies_true, and_true]
    constructor
    · intro m v m' hm hstore
      obtain ⟨r, hr, rfl⟩ := messageField_nested hrt (ResultCode.lawful hrt) hm hstore
      simpa [ResultWellFormed, hset] using hr
    · intro m v m' hm hstore
      rwa [hkeep hstore]
  store_values m src hsrc hsize := by
    simp only [List.foldlM_cons, List.foldlM_nil, Option.bind_eq_bind, Option.pure_def]
    rw [messageField_store hrt (ResultCode.lawful hrt) _ _ m src hsrc
      (hsize _ List.mem_cons_self), Option.bind_some]
    exact (Option.bind_fun_some _).trans (hmerge m src)

theorem LoginResponse.lawful (hrt : rt.Lawful) :
    (LoginResponse.messageClass rt).Lawful fun m => ResultWellFormed rt m.result := by
  refine lawful_of_result hrt (fun _ _ => rfl) (boolField_lawful hrt (by decide) _ _) ?_ ?_ rfl ?_
    fun m src => ?_
  · exact (by decide : (16 : UInt8) ≠ 10)
  · intro m v m' hstore
    obtain rfl := Option.some.inj hstore
    rfl
  · rintro ⟨result, sucess⟩
    simp [mergeResult_none hrt]
  · rw [boolField_store]
    cases src.result <;> cases src.sucess <;> rfl

theorem RegisterRequest.lawful (hrt : rt.Lawful) :
    (RegisterRequest.messageClass rt).Lawful fun _ => True where
  field := by
    simp only [RegisterRequest.messageClass, List.forall_mem_cons, List.not_mem_nil, false_imp_iff,
      implies_true, and_true]
    exact ⟨uint32Field_lawful hrt (by decide) _ _,
      bytesField_lawful hrt (by decide) _ _,
      bytesField_lawful hrt (by decide) _ _⟩
  nodup := by
    show ([8, 18, 26] : List UInt8).Nodup
    decide
  merge_default m := by
    simp only [RegisterRequest.messageClass, bytes_or_nil, value_or_zero]
  nested_default := trivial
  nested_store := fun _ _ _ _ _ _ _ => trivial
  store_values m src _ _ := by
    simp only [RegisterRequest.messageClass, List.foldlM_cons, List.foldlM_nil, bytesField_store,
      uint32Field_store, Option.bind_eq_bind, Option.bind_some, Option.pure_def]
    congr 1
    split_ifs <;> rfl

theorem RegisterResponse.lawful (hrt : rt.Lawful) :
    (RegisterResponse.messageClass rt).Lawful fun m => ResultWellFormed rt m.result := by
  refine lawful_of_result hrt (fun _ _ => rfl) (boolField_lawful hrt (by decide) _ _) ?_ ?_ rfl ?_
    fun m src => ?_
  · exact (by decide : (16 : UInt8) ≠ 10)
  · intro m v m' hstore
    obtain rfl := Option.some.inj hstore
    rfl
  · rintro ⟨result, sucess⟩
    simp [mergeResult_none hrt]
  · rw [boolField_store]
    cases src.result <;> cases src.sucess <;> rfl

theorem GetFriendsListRequest.lawful (hrt : rt.Lawful) :
    (GetFriendsListRequest.messageClass rt).Lawful fun _ => True where
  field := by
    simp only [GetFriendsListRequest.messageClass, List.forall_mem_cons, List.not_mem_nil,
      false_imp_iff, implies_true, and_true]
    exact uint32Field_lawful hrt (by decide) _ _
  nodup := by
    show ([8] : List UInt8).Nodup
    decide
  merge_default m := by
    simp only [GetFriendsListRequest.messageClass, value_or_zero]
  nested_default := trivial
  nested_store := fun _ _ _ _ _ _ _ => trivial
  store_values m src _ _ := by
    simp only [GetFriendsListRequest.messageClass, List.foldlM_cons, List.foldlM_nil,
      uint32Field_store, Option.bind_eq_bind, Option.bind_some, Option.pure_def]
    congr 1
    split <;> rfl

theorem GetFriendsListResponse.lawful (hrt : rt.Lawful) :
    (GetFriendsListResponse.messageClass rt).Lawful fun m => ResultWellFormed rt m.result := by
  refine lawful_of_result hrt (fun _ _ => rfl) (repeatedBytesField_lawful hrt (by decide) _ _)
    ?_ ?_ rfl ?_ fun m src => ?_
  · exact (by decide : (18 : UInt8) ≠ 10)
  · intro m v m' hstore
    obtain rfl := Option.some.inj hstore
    rfl
  · rintro ⟨result, friends⟩
    simp [mergeResult_none hrt]
  · rw [repeatedBytesField_store (fun m : GetFriendsListResponse F => m.friends)
      (fun m v => { m with friends := v }) (fun _ _ => rfl) (fun _ _ _ => rfl) fun _ => rfl]
    cases src.result <;> rfl

end fixbug

end CppInOne.Mprpc
