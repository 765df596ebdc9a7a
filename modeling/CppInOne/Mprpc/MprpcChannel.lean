import CppInOne.Mprpc.Protobuf

/-!
# The RPC channel of the client

`CallMethod` serializes the request, asks zookeeper for the address of the method, and does
one exchange over a fresh socket. What the system calls answer is given by a `World`; the
debug output on `std::cout` is left out. A `none` is an access outside one of the two stack
arrays.
-/

namespace CppInOne.Mprpc
open ByteString

variable {T M : Type}

/-! ## The controller -/

structure MprpcController where
  m_failed : Bool
  m_errText : Bytes
  deriving DecidableEq, Repr

namespace MprpcController

def create : MprpcController := ⟨false, []⟩

def Reset (_ : MprpcController) : MprpcController := ⟨false, []⟩

def Failed (c : MprpcController) : Bool := c.m_failed

def ErrorText (c : MprpcController) : Bytes := c.m_errText

def SetFailed (_ : MprpcController) (reason : Bytes) : MprpcController := ⟨true, reason⟩

end MprpcController

namespace MprpcChannel

/-! ## The surroundings of a call -/

/-- The answers that one call gets; a failed system call is known by its `errno`. -/
structure World where
  socket : Except Int Int
  /-- The result of `ZkClient::GetData`. -/
  GetData : Bytes
  connect : Except Int Unit
  send : Except Int Unit
  /-- The bytes in the order of their arrival, in the pieces that `recv` hands out. After
  the last one it returns 0. -/
  recv : Except Int (List Bytes)

/-- What a call does to its surroundings. -/
inductive Event where
  | socket (clientfd : Int)
  | GetData (path : Bytes)
  | connect (clientfd : Int) (ip : Bytes) (port : UInt16)
  | send (clientfd : Int) (data : Bytes)
  | recv (clientfd : Int) (data : Bytes)
  | close (clientfd : Int)
  | SetFailed (reason : Bytes)
  deriving DecidableEq, Repr

/-- The state in which `CallMethod` leaves its arguments. -/
structure Return (M : Type) where
  controller : MprpcController
  /-- The message parsed into `response`; `none` if nothing was, or not with success. -/
  response : Option M
  trace : List Event
  deriving DecidableEq, Repr

/-- `controller->SetFailed(reason)`, and what the call still does before it returns. -/
def fail (controller : MprpcController) (trace : List Event) (reason : Bytes)
    (after : List Event) : Return M where
  controller := controller.SetFailed reason
  response := none
  trace := trace ++ .SetFailed reason :: after

/-- `sizeof recv_buf` -/
def sizeofRecvBuf : Nat := 1024

/-- `sizeof errTxt` -/
def sizeofErrTxt : Nat := 512

/-- What the next `recv` of at most `size` bytes stores. -/
def recv (size : Nat) (incoming : List Bytes) : Bytes := (incoming.headD []).take size

/-! ## The call -/

/-- The bytes of a request, or the reason why there are none. -/
def encodeRequest (pb : Protobuf T M) (e : Endian) (method : MethodDescriptor T) (request : M) :
    Except Bytes Bytes :=
  let service_name := method.service
  let method_name := method.name
  match (pb.message method.input_type).SerializeToString request with
  | none => .error (ascii "serialize request error!")
  | some args_str =>
    let args_size : UInt32 := .ofNat args_str.length
    let rpcHeader : RpcHeader := { service_name, method_name, args_size }
    match pb.RpcHeader.SerializeToString rpcHeader with
    | none => .error (ascii "serialize rpc header error!")
    | some rpc_header_str =>
      let header_size : UInt32 := .ofNat rpc_header_str.length
      .ok (e.store header_size ++ rpc_header_str ++ args_str)

/-- `"/" + service_name + "/" + method_name` -/
def methodPath (method : MethodDescriptor T) : Bytes :=
  ascii "/" ++ method.service ++ ascii "/" ++ method.name

/-- The node address in the data of a znode, or the reason why there is none. -/
def address (method_path host_data : Bytes) : Except Bytes (Bytes × UInt16) :=
  if host_data = [] then .error (method_path ++ ascii " is not exist!")
  else
    match find host_data 0x3a with
    | none => .error (method_path ++ ascii " address is invalid!")
    | some idx =>
      let ip := host_data.take idx
      let port := (host_data.drop (idx + 1)).take (host_data.length - idx)
      .ok (ip, .ofInt (atoi port))

/-- The part of `CallMethod` from `connect` on. -/
def exchange (pb : Protobuf T M) (output_type : T) (controller : MprpcController) (w : World)
    (trace : List Event) (clientfd : Int) (ip : Bytes) (port : UInt16) (send_rpc_str : Bytes) :
    Option (Return M) := do
  let trace := trace ++ [.connect clientfd ip port]
  match w.connect with
  | .error errno =>
    let errTxt ← sprintf sizeofErrTxt (ascii "connect socket error! errno:" ++ decimal errno)
    return fail controller trace errTxt [.close clientfd]
  | .ok () =>
    let trace := trace ++ [.send clientfd send_rpc_str]
    match w.send with
    | .error errno =>
      let errTxt ← sprintf sizeofErrTxt (ascii "send socket error! errno:" ++ decimal errno)
      return fail controller trace errTxt [.close clientfd]
    | .ok () =>
      match w.recv with
      | .error errno =>
        let trace := trace ++ [.recv clientfd []]
        let errTxt ← sprintf sizeofErrTxt (ascii "recv socket error! errno:" ++ decimal errno)
        return fail controller trace errTxt [.close clientfd]
      | .ok incoming =>
        let received := recv sizeofRecvBuf incoming
        let trace := trace ++ [.recv clientfd received]
        let recv_buf := copy received (List.replicate sizeofRecvBuf 0) sizeofRecvBuf
        let recv_size := received.length
        match (pb.message output_type).ParseFromString (recv_buf.take recv_size) with
        | none =>
          let text ← cstring recv_buf
          let errTxt ← sprintf sizeofErrTxt (ascii "parse error! response_str:" ++ text)
          return fail controller trace errTxt [.close clientfd]
        | some response =>
          return { controller, response, trace := trace ++ [.close clientfd] }

def CallMethod (pb : Protobuf T M) (e : Endian) (method : MethodDescriptor T)
    (controller : MprpcController) (request : M) (w : World) : Option (Return M) := do
  match encodeRequest pb e method request with
  | .error reason => return fail controller [] reason []
  | .ok send_rpc_str =>
    match w.socket with
    | .error errno =>
      let errTxt ← sprintf sizeofErrTxt (ascii "create socket error! errno:" ++ decimal errno)
      return fail controller [] errTxt []
    | .ok clientfd =>
      let method_path := methodPath method
      let trace := [.socket clientfd, .GetData method_path]
      match address method_path w.GetData with
      -- these two returns do not close the socket
      | .error reason => return fail controller trace reason []
      | .ok (ip, port) =>
        exchange pb method.output_type controller w trace clientfd ip port send_rpc_str

/-! ## What a call has done -/

variable {pb : Protobuf T M} {controller : MprpcController} {w : World} {out : Return M}

theorem recv_length (size : Nat) (incoming : List Bytes) :
    (recv size incoming).length ≤ size :=
  List.length_take_le ..

/-- `ParseFromArray` sees the received bytes, without the rest of the array. -/
theorem take_copy {received : Bytes} {size : Nat} (h : received.length ≤ size) :
    (copy received (List.replicate size 0) size).take received.length = received := by
  rw [copy, List.take_of_length_le h, List.take_left]

theorem eq_fail_of_sprintf {text : Bytes} {trace after : List Event}
    (h : ((sprintf sizeofErrTxt text).bind fun errTxt =>
      some (fail controller trace errTxt after)) = some out) :
    ∃ reason, out = fail controller trace reason after := by
  obtain ⟨errTxt, -, hfail⟩ := Option.bind_eq_some_iff.mp h
  exact ⟨errTxt, (Option.some.inj hfail).symm⟩

/-- The exchange stops where a step fails, reports this and closes the socket, or all its steps
have gone through. -/
theorem exchange_cases {output_type : T} {trace : List Event} {clientfd : Int} {ip : Bytes}
    {port : UInt16} {send_rpc_str : Bytes}
    (h : exchange pb output_type controller w trace clientfd ip port send_rpc_str = some out) :
    (∃ done reason data, out = fail controller (trace ++ done) reason [.close clientfd] ∧
        done <+: [.connect clientfd ip port, .send clientfd send_rpc_str, .recv clientfd data] ∧
        ∀ incoming, w.connect = .ok () → w.send = .ok () → w.recv = .ok incoming →
          (pb.message output_type).ParseFromString (recv sizeofRecvBuf incoming) = none) ∨
      ∃ incoming response, w.connect = .ok () ∧ w.send = .ok () ∧ w.recv = .ok incoming ∧
        (pb.message output_type).ParseFromString (recv sizeofRecvBuf incoming) = some response ∧
        out = { controller, response, trace := trace ++ [.connect clientfd ip port,
          .send clientfd send_rpc_str, .recv clientfd (recv sizeofRecvBuf incoming),
          .close clientfd] } := by
  unfold exchange at h
  cases hc : w.connect with
  | error errno =>
    rw [hc] at h
    obtain ⟨reason, rfl⟩ := eq_fail_of_sprintf h
    exact Or.inl ⟨[.connect clientfd ip port], reason, [], rfl, by simp, by simp⟩
  | ok u =>
    rw [hc] at h
    cases hs : w.send with
    | error errno =>
      rw [hs] at h
      obtain ⟨reason, rfl⟩ := eq_fail_of_sprintf h
      refine Or.inl ⟨[.connect clientfd ip port, .send clientfd send_rpc_str], reason, [], ?_,
        by simp, by simp⟩
      rw [List.append_assoc]
      rfl
    | ok u' =>
      rw [hs] at h
      cases hr : w.recv with
      | error errno =>
        rw [hr] at h
        obtain ⟨reason, rfl⟩ := eq_fail_of_sprintf h
        refine Or.inl ⟨[.connect clientfd ip port, .send clientfd send_rpc_str,
          .recv clientfd []], reason, [], ?_, List.prefix_rfl, by simp⟩
        simp only [List.append_assoc, List.cons_append, List.nil_append]
      | ok incoming =>
        rw [hr] at h
        -- the bytes of `recv_buf` that are parsed are those received
        simp only [take_copy (recv_length ..)] at h
        cases hp : (pb.message output_type).ParseFromString (recv sizeofRecvBuf incoming) with
        | none =>
          rw [hp] at h
          obtain ⟨text, -, h⟩ := Option.bind_eq_some_iff.mp h
          obtain ⟨reason, rfl⟩ := eq_fail_of_sprintf h
          refine Or.inl ⟨[.connect clientfd ip port, .send clientfd send_rpc_str,
            .recv clientfd (recv sizeofRecvBuf incoming)], reason, recv sizeofRecvBuf incoming,
            ?_, List.prefix_rfl, ?_⟩
          · simp only [List.append_assoc, List.cons_append, List.nil_append]
          · rintro incoming' - - hincoming
            cases hincoming
            exact hp
        | some response =>
          rw [hp] at h
          cases h
          refine Or.inr ⟨incoming, response, rfl, rfl, rfl, hp, ?_⟩
          simp only [List.append_assoc, List.cons_append, List.nil_append]

/-- A call returns before it has a socket, or with a socket but without an address, or from the
exchange. -/
theorem CallMethod_cases {e : Endian} {method : MethodDescriptor T} {request : M}
    (h : CallMethod pb e method controller request w = some out) :
    (∃ reason, out = fail controller [] reason [] ∧
        ∀ send_rpc_str clientfd, encodeRequest pb e method request = .ok send_rpc_str →
          w.socket ≠ .ok clientfd) ∨
      ∃ send_rpc_str clientfd, encodeRequest pb e method request = .ok send_rpc_str ∧
        w.socket = .ok clientfd ∧
        ((∃ reason, address (methodPath method) w.GetData = .error reason ∧
            out = fail controller [.socket clientfd, .GetData (methodPath method)] reason []) ∨
          ∃ ip port, address (methodPath method) w.GetData = .ok (ip, port) ∧
            exchange pb method.output_type controller w
              [.socket clientfd, .GetData (methodPath method)] clientfd ip port send_rpc_str =
              some out) := by
  unfold CallMethod at h
  cases he : encodeRequest pb e method request with
  | error reason =>
    rw [he] at h
    cases h
    exact Or.inl ⟨reason, rfl, by simp⟩
  | ok send_rpc_str =>
    rw [he] at h
    cases hs : w.socket with
    | error errno =>
      rw [hs] at h
      obtain ⟨reason, rfl⟩ := eq_fail_of_sprintf h
      exact Or.inl ⟨reason, rfl, by simp⟩
    | ok clientfd =>
      rw [hs] at h
      refine Or.inr ⟨send_rpc_str, clientfd, rfl, rfl, ?_⟩
      cases ha : address (methodPath method) w.GetData with
      | error reason =>
        simp only [ha] at h
        cases h
        exact Or.inl ⟨reason, rfl, rfl⟩
      | ok ip_port =>
        simp only [ha] at h
        exact Or.inr ⟨ip_port.1, ip_port.2, rfl, h⟩

end MprpcChannel

end CppInOne.Mprpc
