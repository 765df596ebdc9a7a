import CppInOne.Mprpc.MprpcChannel
import CppInOne.Mprpc.RpcProvider

/-!
# What a successful call carries

The provider sends the bare encoding of its answer and closes; `CallMethod` parses what one
`recv` of 1024 bytes returns. This file proves when a call that reports no failure carries
the answer that the provider serialized.
-/

namespace CppInOne.Mprpc.MprpcChannel
open ByteString RpcProvider

variable {T M : Type} {pb : Protobuf T M} {e : Endian} {method : MethodDescriptor T}
  {controller : MprpcController} {request : M} {w : World} {incoming : List Bytes} {m : M}
  {out : Return M}

/-- `controller->SetFailed` was called. -/
def Reports (out : Return M) : Prop := ∃ reason, .SetFailed reason ∈ out.trace

/-- Every step of the call before the parse succeeds, and `recv` finds these pieces. -/
structure Completes (pb : Protobuf T M) (e : Endian) (method : MethodDescriptor T) (request : M)
    (w : World) (incoming : List Bytes) : Prop where
  encoded : ∃ send_rpc_str, encodeRequest pb e method request = .ok send_rpc_str
  created : ∃ clientfd, w.socket = .ok clientfd
  found : ∃ ip_port, address (methodPath method) w.GetData = .ok ip_port
  connected : w.connect = .ok ()
  sent : w.send = .ok ()
  received : w.recv = .ok incoming

/-! ## The outcomes of `CallMethod` -/

theorem reports_fail (controller : MprpcController) (trace : List Event) (reason : Bytes)
    (after : List Event) : Reports (fail controller trace reason after : Return M) :=
  ⟨reason, by simp [fail]⟩

theorem exchange_success {output_type : T} {trace : List Event} {clientfd : Int} {ip : Bytes}
    {port : UInt16} {send_rpc_str : Bytes}
    (h : exchange pb output_type controller w trace clientfd ip port send_rpc_str = some out)
    (hout : ¬ Reports out) :
    w.connect = .ok () ∧ w.send = .ok () ∧ ∃ incoming, w.recv = .ok incoming ∧
      (pb.message output_type).ParseFromString (recv sizeofRecvBuf incoming) = out.response ∧
      out.response ≠ none := by
  obtain ⟨done, reason, data, rfl, -⟩ |
      ⟨incoming, response, hconnect, hsend, hrecv, hparse, rfl⟩ := exchange_cases h
  · exact absurd (reports_fail ..) hout
  · exact ⟨hconnect, hsend, incoming, hrecv, hparse, by simp⟩

/-- A call that returns without a failure went through all steps and parsed what it received. -/
theorem CallMethod_success (h : CallMethod pb e method controller request w = some out)
    (hout : ¬ Reports out) : ∃ incoming, Completes pb e method request w incoming ∧
      ∃ m, (pb.message method.output_type).ParseFromString (recv sizeofRecvBuf incoming) =
        some m ∧ out.response = some m := by
  obtain ⟨reason, rfl, -⟩ |
      ⟨send_rpc_str, clientfd, he, hs, ⟨reason, -, rfl⟩ | ⟨ip, port, ha, hx⟩⟩ :=
    CallMethod_cases h
  · exact absurd (reports_fail ..) hout
  · exact absurd (reports_fail ..) hout
  · obtain ⟨hconnect, hsend, incoming, hrecv, hparse, hsome⟩ := exchange_success hx hout
    obtain ⟨m, hm⟩ := Option.ne_none_iff_exists'.mp hsome
    exact ⟨incoming, ⟨⟨_, he⟩, ⟨_, hs⟩, ⟨_, ha⟩, hconnect, hsend, hrecv⟩, m, hparse.trans hm, hm⟩

/-- When all steps succeed and the received bytes parse, the call returns what they encode. -/
theorem Completes.returns (h : Completes pb e method request w incoming)
    (controller : MprpcController)
    (hparse : (pb.message method.output_type).ParseFromString (recv sizeofRecvBuf incoming) =
      some m) :
    ∃ out, CallMethod pb e method controller request w = some out ∧ ¬ Reports out ∧
      out.response = some m := by
  obtain ⟨send_rpc_str, he⟩ := h.encoded
  obtain ⟨clientfd, hs⟩ := h.created
  obtain ⟨⟨ip, port⟩, ha⟩ := h.found
  refine ⟨{ controller, response := some m, trace := [.socket clientfd,
    .GetData (methodPath method), .connect clientfd ip port, .send clientfd send_rpc_str,
    .recv clientfd (recv sizeofRecvBuf incoming), .close clientfd] }, ?_, ?_, rfl⟩
  · simp only [CallMethod, he, hs, ha, exchange, h.connected, h.sent, h.received,
      take_copy (recv_length ..), hparse]
    rfl
  · simp [Reports]

/-! ## The answer -/

/-- The pieces that `recv` hands out when the provider sends `answer`, or when it closes
before it has sent anything. -/
structure Delivers (answer : Bytes) (incoming : List Bytes) : Prop where
  nonempty : ∀ c ∈ incoming, c ≠ []
  bytes : incoming.flatten = answer ∨ incoming = []

/-- A call without a failure returns this message. -/
def Carries (pb : Protobuf T M) (e : Endian) (method : MethodDescriptor T)
    (controller : MprpcController) (request : M) (w : World) (response : M) : Prop :=
  ∀ out, CallMethod pb e method controller request w = some out → ¬ Reports out →
    out.response = some response

/-- If the call gets as far as the parse, then its one `recv` has returned the whole answer,
or bytes that encode nothing. -/
def ReceivesWhole (pb : Protobuf T M) (e : Endian) (method : MethodDescriptor T) (request : M)
    (w : World) (answer : Bytes) : Prop :=
  ∀ incoming, Completes pb e method request w incoming →
    (pb.message method.output_type).ParseFromString (recv sizeofRecvBuf incoming) = none ∨
      recv sizeofRecvBuf incoming = answer

/-- At the end of the stream `recv` returns 0. -/
@[simp] theorem recv_nil (size : Nat) : recv size [] = [] := List.take_nil

theorem Delivers.recv_start {answer : Bytes} (h : Delivers answer incoming) (size : Nat) :
    recv size incoming <+: answer := by
  obtain hflat | hnil := h.bytes
  · rw [← hflat]
    cases incoming with
    | nil => simp
    | cons c rest => exact (List.take_prefix size c).trans (List.prefix_append c rest.flatten)
  · rw [hnil, recv_nil]
    exact List.nil_prefix

theorem mem_SendRpcResponse {c : Codec M} {response : M} {data : Bytes} :
    .send data ∈ SendRpcResponse c response ↔ c.SerializeToString response = some data := by
  unfold SendRpcResponse
  split
  · next s hs => simp [hs, eq_comm]
  · next hs => simp [hs]

/-- **A call that reports no failure carries the answer when its one `recv` returned all of
it, and only then**, provided that no proper prefix of the answer encodes the same message. -/
theorem carries_answer (hpb : pb.Lawful) {response : M} {answer : Bytes}
    (hsend : .send answer ∈ SendRpcResponse (pb.message method.output_type) response)
    (hdelivers : ∀ incoming, w.recv = .ok incoming → Delivers answer incoming) :
    (ReceivesWhole pb e method request w answer →
      Carries pb e method controller request w response) ∧
    ((∀ b, b <+: answer →
        (pb.message method.output_type).ParseFromString b = some response → b = answer) →
      Carries pb e method controller request w response →
      ReceivesWhole pb e method request w answer) := by
  have hanswer := (hpb.message method.output_type).parse_serialize (mem_SendRpcResponse.mp hsend)
  constructor
  · intro hwhole out hcall hout
    obtain ⟨incoming, hcompletes, m, hparse, hm⟩ := CallMethod_success hcall hout
    obtain hnone | hall := hwhole incoming hcompletes
    · simp [hnone] at hparse
    · rw [hm, ← hparse, hall, hanswer]
  · intro hcanonical hcarries incoming hcompletes
    cases hparse :
        (pb.message method.output_type).ParseFromString (recv sizeofRecvBuf incoming) with
    | none => exact Or.inl rfl
    | some m =>
      -- the call succeeds with `m`, so `m` is the answer, and its bytes begin the answer's
      obtain ⟨out, hcall, hout, hm⟩ := hcompletes.returns controller hparse
      have hresponse : some m = some response := hm.symm.trans (hcarries out hcall hout)
      have hbytes := (hdelivers incoming hcompletes.received).recv_start sizeofRecvBuf
      exact Or.inr (hcanonical _ hbytes (hparse.trans hresponse))

/-! ## A login -/

/-- The surroundings of a login in which only the delivery of the answer is open. -/
def loginWorld (incoming : List Bytes) : World where
  socket := .ok 3
  GetData := ascii "127.0.0.1:8000"
  connect := .ok ()
  send := .ok ()
  recv := .ok incoming

theorem completes_loginWorld (incoming : List Bytes) :
    Completes userProtobuf .little Login loginRequest (loginWorld incoming) incoming where
  encoded := ⟨Endian.store .little 25 ++ loginHeaderStr ++ loginArgs, by decide +kernel⟩
  created := ⟨3, rfl⟩
  found := by
    show ∃ a, address (methodPath Login) (ascii "127.0.0.1:8000") = .ok a
    exact ⟨(ascii "127.0.0.1", 8000), by decide +kernel⟩
  connected := rfl
  sent := rfl
  received := rfl

def loginAnswer : Bytes := [0x0a, 0, 0x10, 1]

theorem loginAnswer_sent : .send loginAnswer ∈
    SendRpcResponse (userProtobuf.message Login.output_type) loginResponse := by
  decide +kernel

theorem carries_answer_login :
    Carries userProtobuf .little Login .create loginRequest (loginWorld [loginAnswer])
      loginResponse ∧
    ReceivesWhole userProtobuf .little Login loginRequest (loginWorld [loginAnswer])
      loginAnswer := by
  have hwhole : ReceivesWhole userProtobuf .little Login loginRequest (loginWorld [loginAnswer])
      loginAnswer := by
    intro incoming hcompletes
    cases hcompletes.received
    exact Or.inr (by decide +kernel)
  have hdelivers : ∀ incoming, (loginWorld [loginAnswer]).recv = .ok incoming →
      Delivers loginAnswer incoming := by
    intro incoming hrecv
    cases hrecv
    exact ⟨by decide, Or.inl rfl⟩
  have hcarries : Carries userProtobuf .little Login .create loginRequest
      (loginWorld [loginAnswer]) loginResponse :=
    (carries_answer userProtobuf_lawful loginAnswer_sent hdelivers).1 hwhole
  refine ⟨hcarries, (carries_answer userProtobuf_lawful loginAnswer_sent hdelivers).2 ?_ hcarries⟩
  intro b _ hb
  have hmem := Codec.mem_of_parse_table hb
  simpa [loginResponse, loginAnswer] using hmem

theorem not_carries_loginWorld {incoming : List Bytes} {m : Message}
    (hparse : (userProtobuf.message Login.output_type).ParseFromString
      (recv sizeofRecvBuf incoming) = some m) (hm : m ≠ loginResponse) :
    ¬ Carries userProtobuf .little Login .create loginRequest (loginWorld incoming)
      loginResponse := by
  intro hcarries
  obtain ⟨out, hcall, hout, hresponse⟩ := (completes_loginWorld incoming).returns .create hparse
  exact hm (Option.some.inj (hresponse.symm.trans (hcarries out hcall hout)))

/-- A provider that closes before it answers, and an answer that arrives in two pieces, both
make a login succeed with a message that was never sent. -/
theorem cut_answer_succeeds :
    (Delivers loginAnswer [] ∧
      ¬ Carries userProtobuf .little Login .create loginRequest (loginWorld [])
        loginResponse) ∧
    Delivers loginAnswer [[0x0a, 0], [0x10, 1]] ∧
      ¬ Carries userProtobuf .little Login .create loginRequest
        (loginWorld [[0x0a, 0], [0x10, 1]]) loginResponse := by
  refine ⟨⟨⟨by decide, Or.inr rfl⟩, ?_⟩, ⟨by decide, Or.inl rfl⟩, ?_⟩
  · exact not_carries_loginWorld (m := .LoginResponse none false) (by decide +kernel)
      (by simp [loginResponse])
  · exact not_carries_loginWorld (m := .LoginResponse (some ⟨0, []⟩) false) (by decide +kernel)
      (by simp [loginResponse])

end CppInOne.Mprpc.MprpcChannel
