import CppInOne.Mprpc.EndToEnd
import CppInOne.Mprpc.Reply

/-!
# Remote calls of the example services

The generated classes `UserServiceRpc` and `FriendServiceRpc` choose a virtual function by the
index of the method, and the example programs override these functions. For every such class
this file proves that a stub call that goes through the framework returns what the override
computes from the request, as a call on the spot would, if TCP delivers the request and the
answer in one piece each.

## Main definitions

- `UserServiceRpc`, `FriendServiceRpc` — the generated classes, by their virtual functions
- `serve` — what `OnMessage` gets from the service for a call

## Main results

- `remote_call_is_local_call` — stub, channel, provider and service together
-/

namespace CppInOne.Mprpc
open ByteString Transition MprpcChannel RpcProvider fixbug

variable {F : Type} {rt : Runtime F}

/-! ## The generated service classes -/

/-- The virtual functions for the methods 0 and 1. -/
structure UserServiceRpc (rt : Runtime F) where
  Login : fixbug.Message rt .LoginRequest → fixbug.Message rt .LoginResponse →
    fixbug.Message rt .LoginResponse
  Register : fixbug.Message rt .RegisterRequest → fixbug.Message rt .RegisterResponse →
    fixbug.Message rt .RegisterResponse

structure FriendServiceRpc (rt : Runtime F) where
  GetFriendsList : fixbug.Message rt .GetFriendsListRequest →
    fixbug.Message rt .GetFriendsListResponse → fixbug.Message rt .GetFriendsListResponse

/-- The object that `friendservice.cc` publishes. -/
def FriendService : Service MessageType where
  address := 1
  GetDescriptor :=
    { name := ascii "FriendServiceRpc"
      methods := [GetFriendsList]
      service_eq := by simp [GetFriendsList] }

/-- `method->index()` -/
def index (service : Service MessageType) (method : MethodDescriptor MessageType) : Nat :=
  service.GetDescriptor.methods.idxOf method

/-- `none`: the index is fatal. -/
def UserServiceRpc.GetResponsePrototype (method : MethodDescriptor MessageType) :
    Option MessageType :=
  match index UserService method with
  | 0 => some .LoginResponse
  | 1 => some .RegisterResponse
  | _ => none

/-- The response as `CallMethod` leaves it. `none`: the index is fatal, or an argument is an
object of another class. -/
def UserServiceRpc.CallMethod (impl : UserServiceRpc rt) (method : MethodDescriptor MessageType)
    (request response : AnyMessage rt) : Option (AnyMessage rt) :=
  match index UserService method, request, response with
  | 0, ⟨.LoginRequest, request⟩, ⟨.LoginResponse, response⟩ =>
    some ⟨.LoginResponse, impl.Login request response⟩
  | 1, ⟨.RegisterRequest, request⟩, ⟨.RegisterResponse, response⟩ =>
    some ⟨.RegisterResponse, impl.Register request response⟩
  | _, _, _ => none

def FriendServiceRpc.GetResponsePrototype (method : MethodDescriptor MessageType) :
    Option MessageType :=
  match index FriendService method with
  | 0 => some .GetFriendsListResponse
  | _ => none

def FriendServiceRpc.CallMethod (impl : FriendServiceRpc rt)
    (method : MethodDescriptor MessageType) (request response : AnyMessage rt) :
    Option (AnyMessage rt) :=
  match index FriendService method, request, response with
  | 0, ⟨.GetFriendsListRequest, request⟩, ⟨.GetFriendsListResponse, response⟩ =>
    some ⟨.GetFriendsListResponse, impl.GetFriendsList request response⟩
  | _, _, _ => none

/-! ## The overrides of `userservice.cc` and `friendservice.cc` -/

/-- `New()` -/
def new (hrt : rt.Lawful) (t : MessageType) : AnyMessage rt :=
  ⟨t, (messageClass rt t).Clear, MessageClass.wellFormed_Clear (messageClass_lawful hrt t)⟩

/-- `mutable_result()`, `set_errcode` and `set_errmsg` -/
def setResult (rt : Runtime F) (result : Option (Object F fixbug.ResultCode)) (errcode : Int32)
    (errmsg : Bytes) : Option (Object F fixbug.ResultCode) :=
  let code := result.getD (ResultCode.messageClass rt).Clear
  some { code with fields := { errcode, errmsg } }

theorem setResult_wellFormed {result : Option (Object F fixbug.ResultCode)}
    (h : ResultWellFormed rt result) (errcode : Int32) (errmsg : Bytes) :
    ResultWellFormed rt (setResult rt result errcode errmsg) := by
  rintro code hcode
  obtain rfl := Option.some.inj hcode
  refine ⟨trivial, ?_⟩
  cases result with
  | none => exact fun u hu => absurd hu List.not_mem_nil
  | some code => exact (h code rfl).foreign

namespace UserService

/-- The local functions of the class. -/
def login (_name _pwd : Bytes) : Bool := true

def register (_id : UInt32) (_name _pwd : Bytes) : Bool := true

def overrides (rt : Runtime F) : UserServiceRpc rt where
  Login request response :=
    let name := request.object.fields.name
    let pwd := request.object.fields.pwd
    let login_result := login name pwd
    let result := setResult rt response.object.fields.result 0 (ascii "")
    { object := { response.object with fields := { result, sucess := login_result } }
      wellFormed :=
        ⟨setResult_wellFormed response.wellFormed.nested _ _, response.wellFormed.foreign⟩ }
  Register request response :=
    let id := request.object.fields.id
    let name := request.object.fields.name
    let pwd := request.object.fields.pwd
    let ret := register id name pwd
    let result := setResult rt response.object.fields.result 0 (ascii "")
    { object := { response.object with fields := { result, sucess := ret } }
      wellFormed :=
        ⟨setResult_wellFormed response.wellFormed.nested _ _, response.wellFormed.foreign⟩ }

end UserService

namespace FriendService

def getFriendsList (_userid : UInt32) : List Bytes := [ascii "sb", ascii "fuck", ascii "bitch"]

def overrides (rt : Runtime F) : FriendServiceRpc rt where
  GetFriendsList request response :=
    let userid := request.object.fields.userid
    let friendList := getFriendsList userid
    let result := setResult rt response.object.fields.result 0 (ascii "")
    -- `add_friends` in a loop
    let friends := friendList.foldl (fun friends name => friends ++ [name])
      response.object.fields.friends
    { object := { response.object with fields := { result, friends } }
      wellFormed :=
        ⟨setResult_wellFormed response.wellFormed.nested _ _, response.wellFormed.foreign⟩ }

end FriendService

/-! ## What the provider gets from a service -/

/-- `OnMessage` makes a response object and calls the service object with it; this is the
response that `done` is run with. -/
def serve (hrt : rt.Lawful) (user : UserServiceRpc rt) (friend : FriendServiceRpc rt)
    (call : Call MessageType (AnyMessage rt)) : Option (AnyMessage rt) :=
  if call.service = UserService then
    (UserServiceRpc.GetResponsePrototype call.method).bind fun t =>
      user.CallMethod call.method call.request (new hrt t)
  else if call.service = FriendService then
    (FriendServiceRpc.GetResponsePrototype call.method).bind fun t =>
      friend.CallMethod call.method call.request (new hrt t)
  else none

/-- The service runs `done` with the response that it has filled. -/
def Serves (hrt : rt.Lawful) (user : UserServiceRpc rt) (friend : FriendServiceRpc rt)
    (s : Exchange.State MessageType (AnyMessage rt)) : Exchange.Action (AnyMessage rt) → Prop
  | .runDone response => ∀ call, s.done = .pending call →
      serve hrt user friend call = some response
  | _ => True

/-- For a published method the index is never fatal, and the classes fit. -/
theorem serve_total (hrt : rt.Lawful) (user : UserServiceRpc rt) (friend : FriendServiceRpc rt)
    {service : Service MessageType} (hservice : service = UserService ∨ service = FriendService)
    {method : MethodDescriptor MessageType} (hmethod : method ∈ service.GetDescriptor.methods)
    (request : fixbug.Message rt method.input_type) :
    ∃ answer : fixbug.Message rt method.output_type,
      serve hrt user friend ⟨service, method, method.input_type, request⟩ =
        some ⟨method.output_type, answer⟩ := by
  obtain rfl | rfl := hservice
  · obtain rfl | hmethod := List.mem_cons.mp hmethod
    · exact ⟨_, rfl⟩
    · obtain rfl := List.mem_singleton.mp hmethod
      exact ⟨_, rfl⟩
  · obtain rfl := List.mem_singleton.mp hmethod
    exact ⟨_, rfl⟩

/-! ## Remote calls -/

variable {e : Endian}

/-- A request that is sent is an object of the class that the method takes. -/
theorem exists_of_encodeRequest (hrt : rt.Lawful) {method : MethodDescriptor MessageType}
    {request : AnyMessage rt} {frame : Bytes}
    (h : encodeRequest (generatedProtobuf hrt) e method request = .ok frame) :
    ∃ m : fixbug.Message rt method.input_type, request = ⟨method.input_type, m⟩ := by
  rw [encodeRequest] at h
  dsimp only at h
  split at h
  · cases h
  · next args_str hargs =>
    obtain ⟨t, m⟩ := request
    obtain ⟨rfl, -⟩ := messageCodec_serialize hrt hargs
    exact ⟨m, rfl⟩

/-- An object that is not too large is encoded in as many bytes as it announces. -/
theorem serialize_of_size (hrt : rt.Lawful) {t : MessageType} {m : fixbug.Message rt t}
    (hsize : (messageClass rt t).ByteSizeLong rt m.object < 2 ^ 31) :
    ∃ data, (messageCodec hrt t).SerializeToString ⟨t, m⟩ = some data ∧
      data.length = (messageClass rt t).ByteSizeLong rt m.object := by
  refine ⟨(messageClass rt t).InternalSerialize rt m.object, ?_, ?_⟩
  · exact (if_pos rfl).trans (MessageClass.SerializeToString_eq_some.mpr ⟨hsize, rfl⟩)
  · exact (MessageClass.ByteSizeLong_eq hrt (messageClass_lawful hrt t) m.object).symm

/-- **A remote call is a local call.** Whatever the overrides compute, and in whatever order the
client and the provider take their steps: a stub call of a published example method whose answer
fits into the receive buffer and comes in one piece, so that the one `recv` takes all of it,
reports no failure, and its response is the object that the service makes of the request of the
client. -/
theorem remote_call_is_local_call (hrt : rt.Lawful) (user : UserServiceRpc rt)
    (friend : FriendServiceRpc rt) {services : List (Service MessageType)}
    (hnames : DistinctNames services) {service : Service MessageType}
    (hpublished : service ∈ services)
    (hservice : service = UserService ∨ service = FriendService)
    {method : MethodDescriptor MessageType} (hmethod : method ∈ service.GetDescriptor.methods)
    {request : AnyMessage rt} {frame : Bytes}
    (hframe : encodeRequest (generatedProtobuf hrt) e method request = .ok frame)
    {as : List (Exchange.Action (AnyMessage rt))} {s : Exchange.State MessageType (AnyMessage rt)}
    (hserves : Guarded (Exchange.step (publish services) (generatedProtobuf hrt) e frame)
      (Serves hrt user friend) Exchange.start as)
    (hrun : run (Exchange.step (publish services) (generatedProtobuf hrt) e frame)
      Exchange.start as = some s) {data : Bytes} (hdata : s.client = .returned data) :
    ∃ answer : fixbug.Message rt method.output_type,
      serve hrt user friend ⟨service, method, request⟩ = some ⟨method.output_type, answer⟩ ∧
      ((messageClass rt method.output_type).ByteSizeLong rt answer.object ≤ 1024 →
        ∀ controller w incoming,
          Completes (generatedProtobuf hrt) e method request w incoming →
          MprpcChannel.recv sizeofRecvBuf incoming = data →
          ∃ out, CallMethod (generatedProtobuf hrt) e method controller request w = some out ∧
            ¬ Reports out ∧ out.response = some ⟨method.output_type, answer⟩) := by
  have hpb := generatedProtobuf_lawful hrt
  have htracks := Exchange.tracks_run
    (R := fun response => serve hrt user friend ⟨service, method, request⟩ = some response)
    (hpb.calls hnames hpublished hmethod hframe)
    (fun s response h hdone => h _ hdone) hserves hrun
  obtain ⟨m, rfl⟩ := exists_of_encodeRequest hrt hframe
  obtain ⟨answer, hanswer⟩ := serve_total hrt user friend hservice hmethod m
  refine ⟨answer, hanswer, fun hsize controller w incoming hcompletes hrecv => ?_⟩
  obtain ⟨response, hserve, hreceived⟩ := htracks.returned hdata
  obtain rfl := Option.some.inj (hanswer.symm.trans hserve)
  obtain ⟨str, hstr, hlen⟩ := serialize_of_size hrt (Nat.lt_of_le_of_lt hsize (by decide))
  -- the answer fits, so `recv` returned all of it
  have hall : MprpcChannel.recv sizeofRecvBuf incoming = str := by
    rw [hrecv, hreceived str hstr]
    exact List.take_of_length_le (by rw [hlen]; exact hsize)
  refine hcompletes.returns controller ?_
  rw [hall]
  exact (hpb.message method.output_type).parse_serialize hstr

/-- The login of `calluserservice.cc` at the provider of `userservice.cc`. -/
theorem remote_call_is_local_call_login : ∃ out,
    CallMethod (generatedProtobuf wireRuntime_lawful) .little Login .create wireRequest
      (loginWorld [[0x0a, 0, 0x10, 1]]) = some out ∧
    ¬ Reports out ∧ out.response = some wireResponse := by
  have hnames : DistinctNames [UserService] := ⟨by decide, by decide +kernel⟩
  have hframe : encodeRequest (generatedProtobuf wireRuntime_lawful) .little Login wireRequest =
      .ok loginFrame := by decide +kernel
  have hserves : Guarded (Exchange.step (publish [UserService])
      (generatedProtobuf wireRuntime_lawful) .little loginFrame)
      (Serves wireRuntime_lawful (UserService.overrides wireRuntime)
        (FriendService.overrides wireRuntime))
      Exchange.start [.send, .deliver, .runDone wireResponse, .recv] := by
    refine ⟨trivial, trivial, ?_, trivial, trivial⟩
    intro call hcall
    obtain rfl := Exchange.Done.pending.inj hcall
    rfl
  obtain ⟨answer, hserve, hremote⟩ := remote_call_is_local_call wireRuntime_lawful
    (UserService.overrides wireRuntime) (FriendService.overrides wireRuntime) hnames
    (List.mem_singleton_self UserService) (Or.inl rfl) List.mem_cons_self hframe hserves rfl rfl
  have hanswer : wireResponse = ⟨.LoginResponse, answer⟩ := Option.some.inj hserve
  rw [hanswer]
  have hsize : (messageClass wireRuntime .LoginResponse).ByteSizeLong wireRuntime
      answer.object ≤ 1024 := by
    obtain rfl := eq_of_heq (Sigma.mk.inj hanswer).2
    decide
  refine hremote hsize .create _ _ ⟨⟨loginFrame, hframe⟩, ⟨3, rfl⟩, ?_, rfl, rfl, rfl⟩ rfl
  exact ⟨(ascii "127.0.0.1", 8000), by decide +kernel⟩

end CppInOne.Mprpc
