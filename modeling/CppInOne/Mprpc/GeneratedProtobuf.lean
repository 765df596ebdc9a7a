import CppInOne.Mprpc.GeneratedMessages
import CppInOne.Mprpc.WireRuntime

/-!
# The generated classes as the protobuf of mprpc

What the framework assumes of the message classes holds of the generated ones.

## Main definitions

- `fixbug.messageClass` — the class of a message type
- `generatedProtobuf` — the header and the messages of the example services

## Main results

- `generated_round_trip` — parsing an encoding gives the object back
- `generated_parse_append` — parsing two inputs in a row merges the second object into the first
- `generated_normal_form` — what was parsed from any input survives being written and read
-/

namespace CppInOne.Mprpc
open ByteString

variable {F : Type}

/-! ## One class for each message type -/

namespace fixbug

/-- The members of the objects of a type. -/
def Fields (F : Type) : MessageType → Type
  | .LoginRequest => LoginRequest
  | .LoginResponse => LoginResponse F
  | .RegisterRequest => RegisterRequest
  | .RegisterResponse => RegisterResponse F
  | .GetFriendsListRequest => GetFriendsListRequest
  | .GetFriendsListResponse => GetFriendsListResponse F

def messageClass (rt : Runtime F) : (t : MessageType) → MessageClass (Fields F t)
  | .LoginRequest => LoginRequest.messageClass rt
  | .LoginResponse => LoginResponse.messageClass rt
  | .RegisterRequest => RegisterRequest.messageClass rt
  | .RegisterResponse => RegisterResponse.messageClass rt
  | .GetFriendsListRequest => GetFriendsListRequest.messageClass rt
  | .GetFriendsListResponse => GetFriendsListResponse.messageClass rt

/-- The result inside a response has no unknown field that its class knows. -/
def Nested (rt : Runtime F) : (t : MessageType) → Fields F t → Prop
  | .LoginRequest => fun _ => True
  | .LoginResponse => fun m : LoginResponse F => ResultWellFormed rt m.result
  | .RegisterRequest => fun _ => True
  | .RegisterResponse => fun m : RegisterResponse F => ResultWellFormed rt m.result
  | .GetFriendsListRequest => fun _ => True
  | .GetFriendsListResponse => fun m : GetFriendsListResponse F => ResultWellFormed rt m.result

theorem messageClass_lawful {rt : Runtime F} (hrt : rt.Lawful) (t : MessageType) :
    (messageClass rt t).Lawful (Nested rt t) := by
  cases t with
  | LoginRequest => exact LoginRequest.lawful hrt
  | LoginResponse => exact LoginResponse.lawful hrt
  | RegisterRequest => exact RegisterRequest.lawful hrt
  | RegisterResponse => exact RegisterResponse.lawful hrt
  | GetFriendsListRequest => exact GetFriendsListRequest.lawful hrt
  | GetFriendsListResponse => exact GetFriendsListResponse.lawful hrt

/-- An object of a type whose unknown fields are unknown to its class. -/
structure Message (rt : Runtime F) (t : MessageType) where
  object : Object F (Fields F t)
  wellFormed : (messageClass rt t).WellFormed rt (Nested rt t) object

end fixbug

/-! ## Round trips -/

variable {rt : Runtime F}

/-- **Round trip.** An object of any of the generated classes whose encoding does not exceed the
limit is announced with its exact size and read back as it was, with its unknown fields. -/
theorem generated_round_trip (hrt : rt.Lawful) :
    (∀ t (m : fixbug.Message rt t) data,
      (fixbug.messageClass rt t).SerializeToString rt m.object = some data →
      data.length = (fixbug.messageClass rt t).ByteSizeLong rt m.object ∧
        (fixbug.messageClass rt t).ParseFromString rt data = some m.object) ∧
    ∀ hdr data, (RpcHeader.messageClass rt).WellFormed rt (fun _ => True) hdr →
      (RpcHeader.messageClass rt).SerializeToString rt hdr = some data →
      data.length = (RpcHeader.messageClass rt).ByteSizeLong rt hdr ∧
        (RpcHeader.messageClass rt).ParseFromString rt data = some hdr := by
  constructor
  · intro t m data h
    have hlawful := fixbug.messageClass_lawful hrt t
    refine ⟨?_, MessageClass.ParseFromString_SerializeToString hrt hlawful m.wellFormed h⟩
    obtain ⟨-, rfl⟩ := MessageClass.SerializeToString_eq_some.mp h
    exact (MessageClass.ByteSizeLong_eq hrt hlawful m.object).symm
  · intro hdr data hhdr h
    have hlawful := RpcHeader.lawful hrt
    refine ⟨?_, MessageClass.ParseFromString_SerializeToString hrt hlawful hhdr h⟩
    obtain ⟨-, rfl⟩ := MessageClass.SerializeToString_eq_some.mp h
    exact (MessageClass.ByteSizeLong_eq hrt hlawful hdr).symm

/-- A list of friends with an error code below 0 and an unknown field. -/
def friendsAnswer : fixbug.Message wireRuntime .GetFriendsListResponse where
  object := ⟨⟨some ⟨⟨-1, ascii "no"⟩, []⟩, [ascii "a", []]⟩, [⟨0x2d, .bytes [1, 2, 3, 4]⟩]⟩
  wellFormed :=
    { nested := by
        rintro r ⟨⟩
        exact ⟨trivial, by simp⟩
      foreign := by
        rintro u hu
        obtain rfl := List.mem_singleton.mp hu
        exact ⟨⟨rfl, rfl⟩, rfl, by decide⟩ }

def friendsAnswerStr : Bytes :=
  [0x0a, 15, 0x08, 0xff, 0xff, 0xff, 0xff, 0xff, 0xff, 0xff, 0xff, 0xff, 1, 0x12, 2] ++
    ascii "no" ++ [0x12, 1] ++ ascii "a" ++ [0x12, 0, 0x2d, 1, 2, 3, 4]

theorem generated_round_trip_friends :
    friendsAnswerStr.length = (fixbug.messageClass wireRuntime .GetFriendsListResponse).ByteSizeLong
        wireRuntime friendsAnswer.object ∧
      (fixbug.messageClass wireRuntime .GetFriendsListResponse).ParseFromString wireRuntime
        friendsAnswerStr = some friendsAnswer.object :=
  (generated_round_trip wireRuntime_lawful).1 .GetFriendsListResponse friendsAnswer
    friendsAnswerStr (by decide +kernel)

/-- Where an input that is accepted is followed by the encoding of an object, the result is that of
`MergeFrom`. -/
def MergesAppended (rt : Runtime F) {M : Type} (c : MessageClass M) (Nested : M → Prop) : Prop :=
  ∀ data tail msg src, c.ParseFromString rt data = some msg → c.WellFormed rt Nested src →
    c.SerializeToString rt src = some tail →
      c.ParseFromString rt (data ++ tail) = some (c.mergeFrom msg src)

/-- **Concatenation is merging**, for every generated class. -/
theorem generated_parse_append (hrt : rt.Lawful) :
    (∀ t, MergesAppended rt (fixbug.messageClass rt t) (fixbug.Nested rt t)) ∧
      MergesAppended rt (fixbug.ResultCode.messageClass rt) (fun _ => True) ∧
      MergesAppended rt (RpcHeader.messageClass rt) (fun _ => True) := by
  refine ⟨fun t data tail msg src h hsrc htail => ?_, fun data tail msg src h hsrc htail => ?_,
    fun data tail msg src h hsrc htail => ?_⟩
  · exact MessageClass.ParseFromString_append hrt (fixbug.messageClass_lawful hrt t) h hsrc htail
  · exact MessageClass.ParseFromString_append hrt (fixbug.ResultCode.lawful hrt) h hsrc htail
  · exact MessageClass.ParseFromString_append hrt (RpcHeader.lawful hrt) h hsrc htail

theorem generated_parse_append_friends :
    (fixbug.messageClass wireRuntime .GetFriendsListResponse).ParseFromString wireRuntime
        ([0x12, 1, 0x62] ++ friendsAnswerStr) =
      some ⟨⟨some ⟨⟨-1, ascii "no"⟩, []⟩, [ascii "b", ascii "a", []]⟩,
        [⟨0x2d, .bytes [1, 2, 3, 4]⟩]⟩ := by
  have hdata : (fixbug.messageClass wireRuntime .GetFriendsListResponse).ParseFromString wireRuntime
      [0x12, 1, 0x62] = some ⟨⟨none, [ascii "b"]⟩, []⟩ := rfl
  exact (generated_parse_append wireRuntime_lawful).1 .GetFriendsListResponse _ _ _ _ hdata
    friendsAnswer.wellFormed (by decide +kernel)

theorem wellFormed_of_ParseFromString (hrt : rt.Lawful) {M : Type} {c : MessageClass M}
    {Nested : M → Prop} (hc : c.Lawful Nested) {data : Bytes} {msg : Object F M}
    (h : c.ParseFromString rt data = some msg) : c.WellFormed rt Nested msg :=
  MessageClass.wellFormed_of_parse hrt hc (MessageClass.wellFormed_Clear hc)
    (MessageClass.ParseFromString_eq_some.mp h)

/-- Writing and reading again changes nothing, whatever the input was: fields twice, in any order,
with defaults written out, or unknown. -/
def RereadsParsed (rt : Runtime F) {M : Type} (c : MessageClass M) : Prop :=
  ∀ data data' msg, c.ParseFromString rt data = some msg →
    c.SerializeToString rt msg = some data' → c.ParseFromString rt data' = some msg

theorem rereadsParsed_of_lawful (hrt : rt.Lawful) {M : Type} {c : MessageClass M}
    {Nested : M → Prop} (hc : c.Lawful Nested) : RereadsParsed rt c := fun _ _ _ h hser =>
  MessageClass.ParseFromString_SerializeToString hrt hc (wellFormed_of_ParseFromString hrt hc h)
    hser

/-- **What was parsed is in a normal form**, for every generated class. -/
theorem generated_normal_form (hrt : rt.Lawful) :
    (∀ t, RereadsParsed rt (fixbug.messageClass rt t)) ∧
      RereadsParsed rt (fixbug.ResultCode.messageClass rt) ∧
      RereadsParsed rt (RpcHeader.messageClass rt) :=
  ⟨fun t => rereadsParsed_of_lawful hrt (fixbug.messageClass_lawful hrt t),
    rereadsParsed_of_lawful hrt (fixbug.ResultCode.lawful hrt),
    rereadsParsed_of_lawful hrt (RpcHeader.lawful hrt)⟩

/-- The fields in the other order, a name twice, and a field of another version. -/
theorem generated_normal_form_login :
    (fixbug.messageClass wireRuntime .LoginRequest).ParseFromString wireRuntime
        [0x0a, 1, 0x62, 0x12, 1, 0x70, 0x18, 7] =
      some ⟨⟨ascii "b", ascii "p"⟩, [⟨0x18, .varint 7⟩]⟩ := by
  have hdata : (fixbug.messageClass wireRuntime .LoginRequest).ParseFromString wireRuntime
      [0x12, 1, 0x70, 0x0a, 1, 0x61, 0x18, 0x87, 0, 0x0a, 1, 0x62] =
        some ⟨⟨ascii "b", ascii "p"⟩, [⟨0x18, .varint 7⟩]⟩ := rfl
  exact (generated_normal_form wireRuntime_lawful).1 .LoginRequest _ _ _ hdata (by decide +kernel)

/-! ## The parameter of mprpc -/

def headerCodec (rt : Runtime F) : Codec RpcHeader where
  SerializeToString hdr := (RpcHeader.messageClass rt).SerializeToString rt ⟨hdr, []⟩
  ParseFromString data := ((RpcHeader.messageClass rt).ParseFromString rt data).map (·.fields)

/-- The messages of all types, as the framework holds them by `google::protobuf::Message *`. -/
abbrev AnyMessage (rt : Runtime F) : Type := Σ t, fixbug.Message rt t

def messageCodec (hrt : rt.Lawful) (t : MessageType) : Codec (AnyMessage rt) where
  SerializeToString m :=
    if m.1 = t then (fixbug.messageClass rt m.1).SerializeToString rt m.2.object else none
  ParseFromString data :=
    match h : (fixbug.messageClass rt t).ParseFromString rt data with
    | none => none
    | some msg =>
      some ⟨t, msg, wellFormed_of_ParseFromString hrt (fixbug.messageClass_lawful hrt t) h⟩

def generatedProtobuf (hrt : rt.Lawful) : Protobuf MessageType (AnyMessage rt) where
  RpcHeader := headerCodec rt
  message := messageCodec hrt

theorem messageCodec_parse (hrt : rt.Lawful) {t : MessageType} {data : Bytes}
    {m : fixbug.Message rt t} :
    (messageCodec hrt t).ParseFromString data = some ⟨t, m⟩ ↔
      (fixbug.messageClass rt t).ParseFromString rt data = some m.object := by
  simp only [messageCodec]
  split
  · next h => simp [h]
  · next msg h =>
    obtain ⟨object, hobject⟩ := m
    simp [h]

/-- What a class reads is an object of this class. -/
theorem exists_of_messageCodec_parse (hrt : rt.Lawful) {t : MessageType} {data : Bytes}
    {m : AnyMessage rt} (h : (messageCodec hrt t).ParseFromString data = some m) :
    ∃ m' : fixbug.Message rt t, m = ⟨t, m'⟩ ∧
      (fixbug.messageClass rt t).ParseFromString rt data = some m'.object := by
  simp only [messageCodec] at h
  split at h
  · cases h
  · next msg hmsg =>
    obtain rfl := Option.some.inj h
    exact ⟨_, rfl, hmsg⟩

theorem headerCodec_lawful (hrt : rt.Lawful) : (headerCodec rt).Lawful where
  parse_serialize {hdr data} h := by
    have hwf : (RpcHeader.messageClass rt).WellFormed rt (fun _ => True) ⟨hdr, []⟩ :=
      ⟨trivial, by simp⟩
    have hparse := MessageClass.ParseFromString_SerializeToString hrt (RpcHeader.lawful hrt) hwf h
    simp only [headerCodec, hparse, Option.map_some]
  length_lt {hdr data} h := by
    obtain ⟨hsize, rfl⟩ := MessageClass.SerializeToString_eq_some.mp h
    rwa [← MessageClass.ByteSizeLong_eq hrt (RpcHeader.lawful hrt)]

theorem messageCodec_serialize (hrt : rt.Lawful) {t t' : MessageType} {m : fixbug.Message rt t'}
    {data : Bytes} (h : (messageCodec hrt t).SerializeToString ⟨t', m⟩ = some data) :
    t' = t ∧ (fixbug.messageClass rt t').SerializeToString rt m.object = some data := by
  simpa [messageCodec] using h

/-- The framework's assumptions on protobuf hold of the generated classes. -/
theorem generatedProtobuf_lawful (hrt : rt.Lawful) : (generatedProtobuf hrt).Lawful where
  RpcHeader := headerCodec_lawful hrt
  message t :=
    { parse_serialize := by
        rintro ⟨t', m⟩ data h
        obtain ⟨rfl, hser⟩ := messageCodec_serialize hrt h
        have hparse := MessageClass.ParseFromString_SerializeToString hrt
          (fixbug.messageClass_lawful hrt t') m.wellFormed hser
        exact (messageCodec_parse hrt).mpr hparse
      length_lt := by
        rintro ⟨t', m⟩ data h
        obtain ⟨rfl, hser⟩ := messageCodec_serialize hrt h
        obtain ⟨hsize, rfl⟩ := MessageClass.SerializeToString_eq_some.mp hser
        rwa [← MessageClass.ByteSizeLong_eq hrt (fixbug.messageClass_lawful hrt t')] }

/-- The request of `calluserservice.cc`. -/
def wireRequest : AnyMessage wireRuntime :=
  ⟨.LoginRequest, ⟨⟨⟨ascii "xiaoqi", ascii "990701"⟩, []⟩, trivial, by simp⟩⟩

end CppInOne.Mprpc
