import CppInOne.Lib.ByteString
import CppInOne.Lib.UnorderedMap

/-!
# What mprpc uses of protobuf

The protobuf runtime is a parameter: a generated message class is known by what
`SerializeToString` and `ParseFromString` do on its objects. Descriptors carry the names and
the message types that the framework reads from them.

## Main definitions

- `Codec` — a message class
- `Codec.Lawful` — parsing inverts serializing, and an encoding has fewer than `2 ^ 31` bytes
- `Protobuf` — the class `RpcHeader` and the message classes of the services
-/

namespace CppInOne.Mprpc
open ByteString

abbrev Bytes := List UInt8

/-- The fields of `mprpc.RpcHeader` in `rpcheader.proto`. -/
structure RpcHeader where
  service_name : Bytes
  method_name : Bytes
  args_size : UInt32
  deriving DecidableEq, Repr

/-! ## Message classes -/

structure Codec (M : Type) where
  /-- `none`: the call returns `false`. -/
  SerializeToString : M → Option Bytes
  /-- `none`: the call returns `false`. -/
  ParseFromString : Bytes → Option M

namespace Codec

variable {M : Type}

structure Lawful (c : Codec M) : Prop where
  parse_serialize : ∀ {m b}, c.SerializeToString m = some b → c.ParseFromString b = some m
  length_lt : ∀ {m b}, c.SerializeToString m = some b → b.length < 2 ^ 31

/-- A class whose objects and encodings are listed one by one. -/
def table [DecidableEq M] (entries : List (M × Bytes)) : Codec M where
  SerializeToString m := (entries.find? fun x => x.1 = m).map Prod.snd
  ParseFromString b := (entries.find? fun x => x.2 = b).map Prod.fst

theorem mem_of_serialize_table [DecidableEq M] {entries : List (M × Bytes)} {m : M} {b : Bytes}
    (h : (table entries).SerializeToString m = some b) : (m, b) ∈ entries := by
  obtain ⟨x, hx, rfl⟩ := Option.map_eq_some_iff.mp h
  obtain rfl : x.1 = m := by simpa using List.find?_some hx
  exact List.mem_of_find?_eq_some hx

theorem mem_of_parse_table [DecidableEq M] {entries : List (M × Bytes)} {m : M} {b : Bytes}
    (h : (table entries).ParseFromString b = some m) : (m, b) ∈ entries := by
  obtain ⟨x, hx, rfl⟩ := Option.map_eq_some_iff.mp h
  obtain rfl : x.2 = b := by simpa using List.find?_some hx
  exact List.mem_of_find?_eq_some hx

/-- Lawfulness of a table is checked entry by entry. -/
theorem table_lawful [DecidableEq M] {entries : List (M × Bytes)}
    (h : ∀ x ∈ entries, (table entries).ParseFromString x.2 = some x.1 ∧ x.2.length < 2 ^ 31) :
    (table entries).Lawful where
  parse_serialize hs := (h _ (mem_of_serialize_table hs)).1
  length_lt hs := (h _ (mem_of_serialize_table hs)).2

end Codec

/-! ## Descriptors and services -/

variable {T M : Type}

structure MethodDescriptor (T : Type) where
  /-- `service()->name()` -/
  service : Bytes
  name : Bytes
  input_type : T
  output_type : T
  deriving DecidableEq, Repr

structure ServiceDescriptor (T : Type) where
  name : Bytes
  /-- `method(0)` to `method(method_count() - 1)` -/
  methods : List (MethodDescriptor T)
  service_eq : ∀ method ∈ methods, method.service = name
  deriving DecidableEq, Repr

/-- A service object; `address` tells two objects of one class apart. -/
structure Service (T : Type) where
  address : Nat
  GetDescriptor : ServiceDescriptor T
  deriving DecidableEq, Repr

/-- The generated classes: `RpcHeader`, and one class for each message type. -/
structure Protobuf (T M : Type) where
  RpcHeader : Codec RpcHeader
  message : T → Codec M

structure Protobuf.Lawful (pb : Protobuf T M) : Prop where
  RpcHeader : pb.RpcHeader.Lawful
  message : ∀ t, (pb.message t).Lawful

/-- Two facts about the wire format. Strings and numbers have no shorter encoding than the
one that is written; and no message starts with the bytes `0xfc` or `0xff`, whose wire types
are an end group and unassigned. -/
structure Protobuf.Compact (pb : Protobuf T M) : Prop where
  header_length : ∀ {hdr hdr' b b'}, pb.RpcHeader.SerializeToString hdr = some b →
    pb.RpcHeader.ParseFromString b' = some hdr' → hdr'.service_name = hdr.service_name →
    hdr'.method_name = hdr.method_name → hdr.args_size ≤ hdr'.args_size →
    b.length ≤ b'.length
  first_byte : ∀ {t b bs m}, (pb.message t).ParseFromString (b :: bs) = some m →
    b ≠ 0xfc ∧ b ≠ 0xff

/-! ## The services of the example programs

`user.proto` and `friend.proto`, with the encodings of a few of their messages. -/

inductive MessageType where
  | LoginRequest
  | LoginResponse
  | RegisterRequest
  | RegisterResponse
  | GetFriendsListRequest
  | GetFriendsListResponse
  deriving DecidableEq, Repr

structure ResultCode where
  errcode : Int
  errmsg : Bytes
  deriving DecidableEq, Repr

inductive Message where
  | LoginRequest (name pwd : Bytes)
  | LoginResponse (result : Option ResultCode) (sucess : Bool)
  | GetFriendsListRequest (userid : UInt32)
  deriving DecidableEq, Repr

def Login : MethodDescriptor MessageType where
  service := ascii "UserServiceRpc"
  name := ascii "Login"
  input_type := .LoginRequest
  output_type := .LoginResponse

def Register : MethodDescriptor MessageType where
  service := ascii "UserServiceRpc"
  name := ascii "Register"
  input_type := .RegisterRequest
  output_type := .RegisterResponse

def GetFriendsList : MethodDescriptor MessageType where
  service := ascii "FriendServiceRpc"
  name := ascii "GetFriendsList"
  input_type := .GetFriendsListRequest
  output_type := .GetFriendsListResponse

/-- The object that `userservice.cc` publishes. -/
def UserService : Service MessageType where
  address := 0
  GetDescriptor :=
    { name := ascii "UserServiceRpc"
      methods := [Login, Register]
      service_eq := by simp [Login, Register] }

def loginRequest : Message := .LoginRequest (ascii "xiaoqi") (ascii "990701")

def loginArgs : Bytes := [0x0a, 6] ++ ascii "xiaoqi" ++ [0x12, 6] ++ ascii "990701"

def loginHeader : RpcHeader := ⟨ascii "UserServiceRpc", ascii "Login", 16⟩

def loginHeaderStr : Bytes :=
  [0x0a, 14] ++ ascii "UserServiceRpc" ++ [0x12, 5] ++ ascii "Login" ++ [0x18, 16]

def friendsRequest : Message := .GetFriendsListRequest 1

def friendsHeader : RpcHeader := ⟨ascii "FriendServiceRpc", ascii "GetFriendsList", 2⟩

def friendsHeaderStr : Bytes :=
  [0x0a, 16] ++ ascii "FriendServiceRpc" ++ [0x12, 14] ++ ascii "GetFriendsList" ++ [0x18, 2]

/-- What `userservice.cc` answers to a login. -/
def loginResponse : Message := .LoginResponse (some ⟨0, []⟩) true

/-- Tables that know the messages of the example programs only, and nothing of other inputs. The
response classes also know the two shorter messages that a cut answer encodes. -/
def userProtobuf : Protobuf MessageType Message where
  RpcHeader := .table [(loginHeader, loginHeaderStr), (friendsHeader, friendsHeaderStr)]
  message
    | .LoginRequest => .table [(loginRequest, loginArgs)]
    | .LoginResponse => .table [(loginResponse, [0x0a, 0, 0x10, 1]),
        (.LoginResponse (some ⟨0, []⟩) false, [0x0a, 0]), (.LoginResponse none false, [])]
    | .GetFriendsListRequest => .table [(friendsRequest, [0x08, 1])]
    | _ => .table []

theorem userProtobuf_lawful : userProtobuf.Lawful where
  RpcHeader := Codec.table_lawful (by decide +kernel)
  message t := by
    cases t <;> exact Codec.table_lawful (by decide +kernel)

theorem userProtobuf_compact : userProtobuf.Compact where
  header_length := by
    intro hdr hdr' b b' hser hparse hservice hmethod hsize
    have hb := Codec.mem_of_serialize_table hser
    have hb' := Codec.mem_of_parse_table hparse
    simp only [List.mem_cons, Prod.mk.injEq, List.not_mem_nil, or_false] at hb hb'
    obtain ⟨rfl, rfl⟩ | ⟨rfl, rfl⟩ := hb <;> obtain ⟨rfl, rfl⟩ | ⟨rfl, rfl⟩ := hb'
    all_goals revert hservice hmethod hsize; decide +kernel
  first_byte := by
    intro t b bs m hparse
    cases t
    all_goals
      have hmem := Codec.mem_of_parse_table hparse
      simp [loginArgs] at hmem
    all_goals grind

end CppInOne.Mprpc
