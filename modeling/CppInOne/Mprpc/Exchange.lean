import CppInOne.Lib.Transition
import CppInOne.Mprpc.MprpcChannel
import CppInOne.Mprpc.RpcProvider

/-!
# One client and one provider

A client that has sent its request blocks in `recv` until bytes arrive or the connection
ends. `SendRpcResponse` always ends it, but `OnMessage` also returns without having called
anything. This file proves which requests leave the client waiting for a provider that has
nothing more to do.

TCP delivers the request and every answer in one piece here: a request that is cut is the subject
of `CppInOne.Mprpc.Framing`, an answer that is cut that of `CppInOne.Mprpc.Reply`.
-/

namespace CppInOne.Mprpc.Exchange
open ByteString Transition RpcProvider

variable {T M : Type} {p : RpcProvider T} {pb : Protobuf T M} {e : Endian} {frame : Bytes}

/-! ## The two parties and what is in flight -/

inductive Client where
  | calling
  | waiting
  /-- `recv` has returned these bytes, or 0. -/
  | returned (data : Bytes)
  deriving DecidableEq, Repr

inductive OnMessageState where
  | notCalled
  | running
  | returned
  /-- The exception has ended the process. -/
  | threw
  deriving DecidableEq, Repr

/-- The closure that `OnMessage` hands to the service. -/
inductive Done (T M : Type) where
  | absent
  | pending (call : Call T M)
  | ran
  deriving DecidableEq, Repr

/-- What travels to the client. -/
inductive Segment where
  | data (data : Bytes)
  | fin
  deriving DecidableEq, Repr

/-- The request travels in one piece, and each `send` of the provider in one segment. -/
structure State (T M : Type) where
  client : Client
  toProvider : Option Bytes
  toClient : List Segment
  onMessage : OnMessageState
  done : Done T M
  /-- What the framework has done to the connection. -/
  conn : List ConnCall
  deriving DecidableEq, Repr

/-- Connected, before the client sends. -/
def start : State T M where
  client := .calling
  toProvider := none
  toClient := []
  onMessage := .notCalled
  done := .absent
  conn := []

inductive Action (M : Type) where
  /-- The client sends its request in one piece and waits. -/
  | send
  /-- The request arrives in one piece. -/
  | deliver
  /-- The service runs `done`, with this response. -/
  | runDone (response : M)
  /-- `Service::CallMethod` returns, and `OnMessage` with it. -/
  | finish
  /-- The client's `recv` returns, with one segment. -/
  | recv
  deriving DecidableEq, Repr

/-- What the calls on the connection put on the wire. -/
def wire (calls : List ConnCall) : List Segment :=
  calls.flatMap fun
    | .send [] => []
    | .send data => [.data data]
    | .shutdown => [.fin]

def step (p : RpcProvider T) (pb : Protobuf T M) (e : Endian) (frame : Bytes) (s : State T M) :
    Action M → Option (State T M)
  | .send =>
    match s.client with
    | .calling => some { s with client := .waiting, toProvider := some frame }
    | _ => none
  | .deliver =>
    match s.toProvider with
    | none => none
    | some buffer =>
      match p.OnMessage pb e buffer with
      -- the operating system closes the sockets of the process
      | .error _ =>
        some { s with toProvider := none, onMessage := .threw, toClient := s.toClient ++ [.fin] }
      | .ok r =>
        match r.call with
        | none => some { s with toProvider := none, onMessage := .returned }
        | some call =>
          some { s with toProvider := none, onMessage := .running, done := .pending call }
  | .runDone response =>
    match s.done with
    | .pending call =>
      let calls := SendRpcResponse (pb.message call.method.output_type) response
      some { s with done := .ran, conn := s.conn ++ calls, toClient := s.toClient ++ wire calls }
    | _ => none
  | .finish =>
    match s.onMessage with
    | .running => some { s with onMessage := .returned }
    | _ => none
  | .recv =>
    match s.client, s.toClient with
    | .waiting, .data b :: rest =>
      some { s with
        client := .returned (MprpcChannel.recv MprpcChannel.sizeofRecvBuf [b])
        toClient := rest }
    | .waiting, .fin :: rest => some { s with client := .returned [], toClient := rest }
    | _, _ => none

/-- `OnMessage` has returned, and no closure is left that the service will still run. -/
def Finished (s : State T M) : Prop :=
  s.onMessage = .returned ∧ ∀ call, s.done ≠ .pending call

/-- The client waits, the provider is through with its request, nothing is in flight, and the
provider has neither answered nor shut the connection down. -/
structure LeftWaiting (s : State T M) : Prop where
  client : s.client = .waiting
  finished : Finished s
  toProvider : s.toProvider = none
  toClient : s.toClient = []
  unanswered : ∀ data, .send data ∉ s.conn
  open_ : .shutdown ∉ s.conn

/-! ## Requests that reach a service -/

/-- Once `OnMessage` is past its checks there is a closure, the closure shuts the connection
down, and the end of the connection is on its way to the client. -/
structure Inv (frame : Bytes) (s : State T M) : Prop where
  calling : s.client = .calling → s.toProvider = none ∧ s.onMessage = .notCalled ∧
    s.done = .absent
  request : ∀ buffer, s.toProvider = some buffer → buffer = frame ∧ s.onMessage = .notCalled ∧
    s.done = .absent
  called : s.onMessage = .running ∨ s.onMessage = .returned → s.done ≠ .absent
  shut : s.done = .ran → .shutdown ∈ s.conn
  ends : s.done = .ran ∨ s.onMessage = .threw → s.client = .waiting → .fin ∈ s.toClient

theorem inv_start : Inv frame (start : State T M) where
  calling _ := ⟨rfl, rfl, rfl⟩
  request := by simp [start]
  called := by simp [start]
  shut := by simp [start]
  ends := by simp [start]

theorem fin_mem_wire {calls : List ConnCall} (h : .shutdown ∈ calls) : .fin ∈ wire calls :=
  List.mem_flatMap.mpr ⟨.shutdown, h, List.mem_singleton_self _⟩

theorem Inv.send {s : State T M} (h : Inv frame s) (hc : s.client = .calling) :
    Inv frame { s with client := .waiting, toProvider := some frame } := by
  obtain ⟨-, hnot, habsent⟩ := h.calling hc
  refine ⟨by simp, fun buffer hb => ⟨(Option.some.inj hb).symm, hnot, habsent⟩, h.called,
    h.shut, ?_⟩
  simp [hnot, habsent]

/-- The client's `recv` takes something from the wire and ends the wait. -/
theorem Inv.received {s : State T M} (h : Inv frame s) (data : Bytes) (rest : List Segment) :
    Inv frame { s with client := .returned data, toClient := rest } where
  calling := by simp
  request := h.request
  called := h.called
  shut := h.shut
  ends := by simp

theorem Inv.runDone {s : State T M} {call : Call T M} (h : Inv frame s)
    (hdone : s.done = .pending call) {calls : List ConnCall} (hcalls : .shutdown ∈ calls) :
    Inv frame ({ s with
      done := .ran
      conn := s.conn ++ calls
      toClient := s.toClient ++ wire calls } : State T M) where
  calling hc := by
    have habsent := (h.calling hc).2.2
    simp [hdone] at habsent
  request buffer hb := by
    have habsent := (h.request buffer hb).2.2
    simp [hdone] at habsent
  called := by simp
  shut _ := List.mem_append_right s.conn hcalls
  ends _ _ := List.mem_append_right s.toClient (fin_mem_wire hcalls)

theorem Inv.step (hcalled : ∀ r, p.OnMessage pb e frame = .ok r → r.call ≠ none)
    {s s' : State T M} {a : Action M} (h : Inv frame s)
    (hs : Exchange.step p pb e frame s a = some s') : Inv frame s' := by
  cases a with
  | send =>
    simp only [Exchange.step] at hs
    split at hs
    · next hc =>
      cases hs
      exact h.send hc
    · cases hs
  | deliver =>
    simp only [Exchange.step] at hs
    split at hs
    · cases hs
    · next buffer hb =>
      obtain ⟨rfl, hnot, habsent⟩ := h.request buffer hb
      -- the client has sent, so it is past `calling`
      have hcalling : s.client ≠ .calling := by
        intro hc
        have hnone := (h.calling hc).1
        simp [hb] at hnone
      split at hs
      · cases hs
        exact ⟨fun hc => absurd hc hcalling, by simp, by simp, h.shut, by simp⟩
      · next r hr =>
        split at hs
        · -- one of the early returns, which the condition on the frame excludes
          next hnone => exact absurd hnone (hcalled r hr)
        · cases hs
          exact ⟨fun hc => absurd hc hcalling, by simp, by simp, by simp, by simp⟩
  | runDone response =>
    simp only [Exchange.step] at hs
    split at hs
    · next call hdone =>
      cases hs
      exact h.runDone hdone (shutdown_mem_SendRpcResponse _ response)
    · cases hs
  | finish =>
    simp only [Exchange.step] at hs
    split at hs
    · next hrunning =>
      cases hs
      have hnotCalled : s.onMessage ≠ .notCalled := by simp [hrunning]
      refine ⟨fun hc => absurd (h.calling hc).2.1 hnotCalled,
        fun buffer hb => absurd (h.request buffer hb).2.1 hnotCalled,
        fun _ => h.called (Or.inl hrunning), h.shut, ?_⟩
      simpa [hrunning] using h.ends
    · cases hs
  | recv =>
    simp only [Exchange.step] at hs
    split at hs
    · cases hs
      exact h.received _ _
    · cases hs
      exact h.received _ _
    · cases hs

theorem Inv.not_leftWaiting {s : State T M} (h : Inv frame s) : ¬ LeftWaiting s := by
  intro hleft
  obtain ⟨hreturned, hpending⟩ := hleft.finished
  cases hdone : s.done with
  | absent => exact h.called (Or.inr hreturned) hdone
  | pending call => exact hpending call hdone
  | ran => exact hleft.open_ (h.shut hdone)

/-- What is read as a call is called. -/
theorem called_of_reads {hdr : RpcHeader} {c : Call T M} (hreads : p.Reads pb e frame hdr c)
    {r : Handled T M} (hr : p.OnMessage pb e frame = .ok r) : r.call = some c := by
  obtain ⟨r', hr', -, hcall⟩ := OnMessage_returns (p := p) hreads.not_throws
  obtain rfl : r = r' := by simpa [hr] using hr'
  exact (hcall c).mpr ⟨hdr, hreads⟩

theorem inv_reachable (hframe : Throws pb e frame ∨ ∃ hdr c, p.Reads pb e frame hdr c)
    {s : State T M} (hreach : Reachable (step p pb e frame) start s) : Inv frame s := by
  have hcalled : ∀ r, p.OnMessage pb e frame = .ok r → r.call ≠ none := by
    intro r hr
    obtain hthrows | ⟨hdr, c, hreads⟩ := hframe
    · simp [OnMessage_throws hthrows] at hr
    · simp [called_of_reads hreads hr]
  exact reachable_invariant (fun s a s' h hs => h.step hcalled hs) inv_start hreach

/-- Once the provider is through with a request that reached a service, or dead, the `recv` of
a waiting client returns. -/
theorem recv_returns (hframe : Throws pb e frame ∨ ∃ hdr c, p.Reads pb e frame hdr c)
    {s : State T M} (hreach : Reachable (step p pb e frame) start s)
    (hwaiting : s.client = .waiting) (hover : Finished s ∨ s.onMessage = .threw) :
    ∃ s', step p pb e frame s .recv = some s' := by
  have hinv := inv_reachable hframe hreach
  have hfin : .fin ∈ s.toClient := by
    refine hinv.ends ?_ hwaiting
    obtain ⟨hreturned, hpending⟩ | hthrew := hover
    · cases hdone : s.done with
      | absent => exact absurd hdone (hinv.called (Or.inr hreturned))
      | pending call => exact absurd hdone (hpending call)
      | ran => exact Or.inl rfl
    · exact Or.inr hthrew
  cases htoClient : s.toClient with
  | nil => simp [htoClient] at hfin
  | cons segment rest => cases segment <;> simp [step, hwaiting, htoClient]

/-! ## Requests that are turned away -/

/-- A request that `OnMessage` neither throws on nor dispatches leaves its client waiting. -/
theorem leftWaiting_of_refused {r : Handled T M} (hr : p.OnMessage pb e frame = .ok r)
    (hcall : r.call = none) :
    ∃ s, Reachable (step p pb e frame) start s ∧ LeftWaiting s := by
  refine ⟨{ start with client := .waiting, onMessage := .returned }, ⟨[.send, .deliver], ?_⟩, ?_⟩
  · simp [run, step, start, hr, hcall]
  · exact ⟨rfl, ⟨rfl, by simp [start]⟩, rfl, rfl, by simp [start], by simp [start]⟩

/-- **No client is left waiting exactly when its request reaches a service or brings the
provider down.** The four early returns of `OnMessage` do neither. -/
theorem no_client_left_waiting (p : RpcProvider T) (pb : Protobuf T M) (e : Endian)
    (frame : Bytes) :
    (∀ s, Reachable (step p pb e frame) start s → ¬ LeftWaiting s) ↔
      Throws pb e frame ∨ ∃ hdr c, p.Reads pb e frame hdr c := by
  constructor
  · intro hnever
    by_contra hneither
    obtain ⟨hthrows, hreads⟩ := not_or.mp hneither
    obtain ⟨r, hr, -, hcall⟩ := OnMessage_returns (p := p) hthrows
    have hnone : r.call = none := by
      by_contra hsome
      obtain ⟨c, hc⟩ := Option.ne_none_iff_exists'.mp hsome
      obtain ⟨hdr, hread⟩ := (hcall c).mp hc
      exact hreads ⟨hdr, c, hread⟩
    obtain ⟨s, hreach, hleft⟩ := leftWaiting_of_refused hr hnone
    exact hnever s hreach hleft
  · intro hframe s hreach
    exact (inv_reachable hframe hreach).not_leftWaiting

/-! ## A request for a service of another node -/

def friendsFrame : Bytes := Endian.store .little 36 ++ friendsHeaderStr ++ [0x08, 1]

/-- The provider of `userservice.cc` ignores a well-formed request for `FriendServiceRpc`,
and its client waits. -/
theorem unknown_service_left_waiting :
    MprpcChannel.encodeRequest userProtobuf .little GetFriendsList friendsRequest =
      .ok friendsFrame ∧
    ∃ s, Reachable (step (publish [UserService]) userProtobuf .little friendsFrame) start s ∧
      LeftWaiting s := by
  refine ⟨by decide +kernel, ?_⟩
  have hreturns : ∃ r, (publish [UserService]).OnMessage userProtobuf .little friendsFrame =
      .ok r ∧ r.call = none :=
    ⟨⟨ascii "FriendServiceRpc is not exist!", none, []⟩, by decide +kernel, rfl⟩
  obtain ⟨r, hr, hcall⟩ := hreturns
  exact leftWaiting_of_refused hr hcall

end CppInOne.Mprpc.Exchange
