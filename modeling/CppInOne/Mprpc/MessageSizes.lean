import CppInOne.Mprpc.GeneratedProtobuf

/-!
# Message sizes

A message may be written in more than one way: with fields twice, in another order, with numbers
that are longer than they need to be. For the header and the requests of the example services
this file proves that none of these is shorter than what the generated code writes.

## Main results

- `MessageClass.ByteSizeLong_le_of_parse` — an object is never larger than what it was read from
- `generatedProtobuf_compact` — the header and the first byte of a message
- `request_shortest` — the requests of the example services
-/

namespace CppInOne.Mprpc

variable {F M : Type} {rt : Runtime F}

/-! ## What a pass adds to an object -/

/-- Storing a value adds at most the bytes that are written for it. -/
def Field.Tight (c : MessageClass M) (f : Field M) : Prop :=
  f.coder.Tight ∧ ∀ {m v m'}, f.store m v = some m' →
    (c.fields.map fun g => g.byteSize m').sum ≤
      (c.fields.map fun g => g.byteSize m).sum + 1 + f.coder.size v

namespace MessageClass

variable {c : MessageClass M} {Nested : M → Prop} {msg msg' : Object F M}

theorem pass_byteSize_le (hrt : rt.Compact) (hc : ∀ f ∈ c.fields, f.Tight c) {ptr rest : Bytes}
    (h : pass rt c Field.readOne msg ptr = .ok (msg', rest)) (hrtl : rt.Lawful) :
    c.ByteSizeLong rt msg' + rest.length ≤ c.ByteSizeLong rt msg + ptr.length := by
  obtain ⟨tag, after, htag, ⟨f, m, hfind, hm, rfl⟩ | ⟨-, -, u, hu, rfl⟩⟩ := pass_cases h
  · obtain ⟨v, hread, hstore⟩ := Field.readOne_eq_some.mp hm
    obtain ⟨htight, hsize⟩ := hc f (mem_of_find hfind)
    have hle := hsize hstore
    have hvalue := htight hread
    have hlt := rt.tag.length_lt htag
    simp only [ByteSizeLong]
    omega
  · obtain ⟨rfl, -⟩ := hrtl.unknown_read hu
    have htagle := hrt.tag htag
    have hvalue := hrt.unknown _ hu
    simp only [ByteSizeLong, List.map_append, List.map_singleton, List.sum_append,
      List.sum_singleton]
    omega

/-- **An object is never larger than what it was read from.** -/
theorem ByteSizeLong_le_of_parse (hrt : rt.Lawful) (hcompact : rt.Compact)
    (hc : c.Lawful Nested) (htight : ∀ f ∈ c.fields, f.Tight c) {data : Bytes}
    (hclear : c.ByteSizeLong rt c.Clear = 0) (h : c.ParseFromString rt data = some msg) :
    c.ByteSizeLong rt msg ≤ data.length := by
  rw [ParseFromString_eq_some, InternalParse_eq_plain hrt hc] at h
  have hle := ReadLoop.run_measure_le (μ := c.ByteSizeLong rt) shrinks_plain
    (fun _ _ _ _ hpass => pass_byteSize_le hcompact htight hpass hrt) h
  rwa [hclear, Nat.zero_add] at hle

/-- An end group and the unassigned wire type are not the start of a message. -/
theorem ParseFromString_eq_none (hrt : rt.Compact)
    (hlow : ∀ f ∈ c.fields, f.tag &&& 7 ≠ 4 ∧ f.tag &&& 7 ≠ 7) {b : UInt8} {bs : Bytes}
    (hb : b.toUInt32 &&& 7 = 4 ∨ b.toUInt32 &&& 7 = 7) :
    c.ParseFromString rt (b :: bs) = none := by
  have hpass : ∃ e, pass rt c Field.parse c.Clear (b :: bs) = .error e := by
    cases htag : rt.tag.read (b :: bs) with
    | none => exact ⟨.failure, by simp only [pass, htag]⟩
    | some x =>
      obtain ⟨tag, after⟩ := x
      have hlowTag := hrt.tag_low htag
      have hfind : c.find tag = none := by
        refine List.find?_eq_none.mpr fun f hf hmatches => ?_
        simp only [Field.Matches, Bool.and_eq_true, beq_iff_eq] at hmatches
        have hbits : f.tag &&& 7 = (tag &&& 7).toUInt8 := by
          rw [← hmatches.2, UInt32.toUInt8_and]
          rfl
        rw [hlowTag] at hbits
        obtain ⟨hfour, hseven⟩ := hlow f hf
        obtain hb | hb := hb
        · exact hfour (hbits.trans (congrArg UInt32.toUInt8 hb))
        · exact hseven (hbits.trans (congrArg UInt32.toUInt8 hb))
      obtain hfour | hseven := hb
      · refine ⟨.lastTag tag, ?_⟩
        simp only [pass, htag, hfind, unusual, hlowTag, hfour, true_or, if_true]
      · refine ⟨.failure, ?_⟩
        have hread : (rt.unknown tag).read after = none :=
          hrt.unknown_seven (hlowTag.trans hseven)
        have husual : ¬ (tag &&& 7 = 4 ∨ tag = 0) := by
          rw [hlowTag, hseven]
          rintro (h | rfl)
          · exact absurd h (by decide)
          · exact absurd (hlowTag.trans hseven) (by decide)
        simp only [pass, htag, hfind, unusual, if_neg husual, hread]
  obtain ⟨e, he⟩ := hpass
  rw [ParseFromString, InternalParse, ReadLoop.run_cons shrinks_parse _ (List.cons_ne_nil b bs), he]
  rfl

end MessageClass

/-! ## The header and the requests -/

theorem RpcHeader.tight (hrt : rt.Compact) :
    ∀ f ∈ (RpcHeader.messageClass rt).fields, f.Tight (RpcHeader.messageClass rt) := by
  simp only [RpcHeader.messageClass, List.forall_mem_cons, List.not_mem_nil, false_imp_iff,
    implies_true, and_true]
  refine ⟨⟨hrt.bytes, ?_⟩, ⟨hrt.bytes, ?_⟩, ⟨hrt.varint32, ?_⟩⟩
  all_goals
    intro m v m' hstore
    obtain rfl := Option.some.inj hstore
    simp only [List.map_cons, List.map_nil, List.sum_cons, List.sum_nil, bytesField, uint32Field]
    split_ifs <;> omega

namespace fixbug

theorem LoginRequest.tight (hrt : rt.Compact) :
    ∀ f ∈ (LoginRequest.messageClass rt).fields, f.Tight (LoginRequest.messageClass rt) := by
  simp only [LoginRequest.messageClass, List.forall_mem_cons, List.not_mem_nil, false_imp_iff,
    implies_true, and_true]
  refine ⟨⟨hrt.bytes, ?_⟩, ⟨hrt.bytes, ?_⟩⟩
  all_goals
    intro m v m' hstore
    obtain rfl := Option.some.inj hstore
    simp only [List.map_cons, List.map_nil, List.sum_cons, List.sum_nil, bytesField]
    split_ifs <;> omega

theorem RegisterRequest.tight (hrt : rt.Compact) :
    ∀ f ∈ (RegisterRequest.messageClass rt).fields, f.Tight (RegisterRequest.messageClass rt) := by
  simp only [RegisterRequest.messageClass, List.forall_mem_cons, List.not_mem_nil, false_imp_iff,
    implies_true, and_true]
  refine ⟨⟨hrt.varint32, ?_⟩, ⟨hrt.bytes, ?_⟩, ⟨hrt.bytes, ?_⟩⟩
  all_goals
    intro m v m' hstore
    obtain rfl := Option.some.inj hstore
    simp only [List.map_cons, List.map_nil, List.sum_cons, List.sum_nil, bytesField, uint32Field]
    split_ifs <;> omega

theorem GetFriendsListRequest.tight (hrt : rt.Compact) :
    ∀ f ∈ (GetFriendsListRequest.messageClass rt).fields,
      f.Tight (GetFriendsListRequest.messageClass rt) := by
  simp only [GetFriendsListRequest.messageClass, List.forall_mem_cons, List.not_mem_nil,
    false_imp_iff, implies_true, and_true]
  refine ⟨hrt.varint32, ?_⟩
  intro m v m' hstore
  obtain rfl := Option.some.inj hstore
  simp only [List.map_cons, List.map_nil, List.sum_cons, List.sum_nil, uint32Field]
  split_ifs <;> omega

/-- The wire types of all fields are 0 and 2. -/
theorem tag_low (t : MessageType) :
    ∀ f ∈ (messageClass rt t).fields, f.tag &&& 7 ≠ 4 ∧ f.tag &&& 7 ≠ 7 := by
  have h : ∀ b ∈ ([8, 10, 16, 18, 26] : List UInt8), b &&& 7 ≠ 4 ∧ b &&& 7 ≠ 7 := by
    simp only [List.forall_mem_cons, List.not_mem_nil, false_imp_iff, implies_true, and_true]
    decide
  have htags : (messageClass rt t).fields.map (·.tag) ⊆ [8, 10, 16, 18, 26] := by
    cases t with
    | LoginRequest => exact (by decide : ([10, 18] : List UInt8) ⊆ [8, 10, 16, 18, 26])
    | LoginResponse => exact (by decide : ([10, 16] : List UInt8) ⊆ [8, 10, 16, 18, 26])
    | RegisterRequest => exact (by decide : ([8, 18, 26] : List UInt8) ⊆ [8, 10, 16, 18, 26])
    | RegisterResponse => exact (by decide : ([10, 16] : List UInt8) ⊆ [8, 10, 16, 18, 26])
    | GetFriendsListRequest => exact (by decide : ([8] : List UInt8) ⊆ [8, 10, 16, 18, 26])
    | GetFriendsListResponse => exact (by decide : ([10, 18] : List UInt8) ⊆ [8, 10, 16, 18, 26])
  exact fun f hf => h f.tag (htags (List.mem_map_of_mem hf))

end fixbug

/-- The number of bytes of a header grows with the args size. -/
theorem headerSize_le (hrt : rt.Compact) {hdr hdr' : RpcHeader} {us : List F}
    (hservice : hdr'.service_name = hdr.service_name)
    (hmethod : hdr'.method_name = hdr.method_name) (hsize : hdr.args_size ≤ hdr'.args_size) :
    (RpcHeader.messageClass rt).ByteSizeLong rt ⟨hdr, []⟩ ≤
      (RpcHeader.messageClass rt).ByteSizeLong rt ⟨hdr', us⟩ := by
  have hmono := hrt.varint32_mono hsize
  have hzero : hdr.args_size ≠ 0 → hdr'.args_size ≠ 0 := by
    intro hne heq
    rw [heq] at hsize
    exact hne (UInt32.le_zero_iff.mp hsize)
  simp only [MessageClass.ByteSizeLong, RpcHeader.messageClass, bytesField, uint32Field,
    List.map_cons, List.map_nil, List.sum_cons, List.sum_nil, hservice, hmethod]
  split_ifs <;> first | omega | grind

/-- The two facts on the wire format that the framework depends on. -/
theorem generatedProtobuf_compact (hrt : rt.Lawful) (hcompact : rt.Compact) :
    (generatedProtobuf hrt).Compact where
  header_length := by
    intro hdr hdr' b b' hser hparse hservice hmethod hsize
    obtain ⟨-, rfl⟩ := MessageClass.SerializeToString_eq_some.mp hser
    obtain ⟨⟨fields, us⟩, hmsg, rfl⟩ := Option.map_eq_some_iff.mp hparse
    have hlawful := RpcHeader.lawful hrt
    have hle := MessageClass.ByteSizeLong_le_of_parse hrt hcompact hlawful
      (RpcHeader.tight hcompact) rfl hmsg
    rw [← MessageClass.ByteSizeLong_eq hrt hlawful]
    exact (headerSize_le hcompact hservice hmethod hsize).trans hle
  first_byte := by
    intro t b bs m hparse
    obtain ⟨m', -, hobject⟩ := exists_of_messageCodec_parse hrt hparse
    have hstart : ¬ (b.toUInt32 &&& 7 = 4 ∨ b.toUInt32 &&& 7 = 7) := by
      intro hb
      rw [MessageClass.ParseFromString_eq_none hcompact (fixbug.tag_low t) hb] at hobject
      cases hobject
    constructor
    · rintro rfl
      exact hstart (.inl (by decide))
    · rintro rfl
      exact hstart (.inr (by decide))

theorem generatedProtobuf_compact_wire : (generatedProtobuf wireRuntime_lawful).Compact :=
  generatedProtobuf_compact wireRuntime_lawful wireRuntime_compact

/-- **No shorter encoding.** Whatever bytes a request of the example services can be read from,
they are at least as many as the client sends for it. -/
theorem request_shortest (hrt : rt.Lawful) (hcompact : rt.Compact) (t : MessageType)
    (ht : t ∈ [Login, Register, GetFriendsList].map MethodDescriptor.input_type)
    {m : AnyMessage rt} {data data' : Bytes}
    (hser : ((generatedProtobuf hrt).message t).SerializeToString m = some data)
    (hparse : ((generatedProtobuf hrt).message t).ParseFromString data' = some m) :
    data.length ≤ data'.length := by
  obtain ⟨m', rfl, hobject⟩ := exists_of_messageCodec_parse hrt hparse
  obtain ⟨-, hbytes⟩ := messageCodec_serialize hrt hser
  obtain ⟨-, rfl⟩ := MessageClass.SerializeToString_eq_some.mp hbytes
  have hlawful := fixbug.messageClass_lawful hrt t
  have hbounds : (∀ f ∈ (fixbug.messageClass rt t).fields, f.Tight (fixbug.messageClass rt t)) ∧
      (fixbug.messageClass rt t).ByteSizeLong rt (fixbug.messageClass rt t).Clear = 0 := by
    simp only [Login, Register, GetFriendsList, List.map_cons, List.map_nil, List.mem_cons,
      List.not_mem_nil, or_false] at ht
    obtain rfl | rfl | rfl := ht
    · exact ⟨fixbug.LoginRequest.tight hcompact, rfl⟩
    · exact ⟨fixbug.RegisterRequest.tight hcompact, rfl⟩
    · exact ⟨fixbug.GetFriendsListRequest.tight hcompact, rfl⟩
  rw [← MessageClass.ByteSizeLong_eq hrt hlawful]
  exact MessageClass.ByteSizeLong_le_of_parse hrt hcompact hlawful hbounds.1 hbounds.2 hobject

def shortLogin : AnyMessage wireRuntime :=
  ⟨.LoginRequest, ⟨⟨⟨[0x62], []⟩, []⟩, trivial, by simp⟩⟩

/-- The name is written twice, and its length with a byte too many. -/
theorem request_shortest_twice :
    ([0x0a, 1, 0x62] : Bytes).length ≤ ([0x0a, 1, 0x61, 0x0a, 0x81, 0, 0x62] : Bytes).length :=
  request_shortest (m := shortLogin) wireRuntime_lawful wireRuntime_compact .LoginRequest
    (by decide) (by decide +kernel) ((messageCodec_parse wireRuntime_lawful).mpr rfl)

end CppInOne.Mprpc
