import CppInOne.Mprpc.Exchange
import CppInOne.Mprpc.WholeFrame
import CppInOne.Mprpc.GeneratedProtobuf

/-!
# A call from end to end

A client and a provider that publishes the method of the request, in any order of their steps,
where TCP delivers the request and the answer in one piece each: the service gets the request
object of the client, and where the client's `recv` has returned, it has the beginning of the
answer of the service.

## Main results

- `call_end_to_end` — for the generated classes, what each side gets from the other
-/

namespace CppInOne.Mprpc
open ByteString Transition MprpcChannel RpcProvider

namespace Exchange

variable {T M : Type} {p : RpcProvider T} {pb : Protobuf T M} {e : Endian} {frame : Bytes}
  {call : Call T M} {R : M → Prop} {s s' : State T M}

/-- What the framework does to the connection with a response. -/
def reply (pb : Protobuf T M) (call : Call T M) (response : M) : List ConnCall :=
  SendRpcResponse (pb.message call.method.output_type) response

/-- What the client's `recv` makes of a segment. -/
def Segment.received : Segment → Bytes
  | .data b => MprpcChannel.recv sizeofRecvBuf [b]
  | .fin => []

/-- How far the exchange of this call has come; `R` are the responses that `done` was run
with. -/
structure Tracks (pb : Protobuf T M) (frame : Bytes) (call : Call T M) (R : M → Prop)
    (s : State T M) : Prop where
  calling : s.client = .calling → s.toProvider = none ∧ s.done = .absent
  request : ∀ buffer, s.toProvider = some buffer → buffer = frame ∧ s.done = .absent
  pending : ∀ call', s.done = .pending call' → call' = call
  quiet : s.done ≠ .ran → s.toClient = [] ∧ ∀ data, s.client ≠ .returned data
  ran : s.done = .ran → ∃ response, R response ∧
    (((∀ data, s.client ≠ .returned data) ∧ s.toClient = wire (reply pb call response)) ∨
      ∃ segment, s.client = .returned segment.received ∧
        wire (reply pb call response) = segment :: s.toClient)

theorem tracks_start : Tracks pb frame call R (start : State T M) where
  calling _ := ⟨rfl, rfl⟩
  request := by simp [start]
  pending := by simp [start]
  quiet _ := by simp [start]
  ran := by simp [start]

theorem Tracks.send (h : Tracks pb frame call R s) (hc : s.client = .calling) :
    Tracks pb frame call R { s with client := .waiting, toProvider := some frame } := by
  obtain ⟨-, habsent⟩ := h.calling hc
  refine ⟨by simp, fun buffer hb => ⟨(Option.some.inj hb).symm, habsent⟩, h.pending, ?_, ?_⟩
  · intro hran
    exact ⟨(h.quiet hran).1, by simp⟩
  · simp [habsent]

/-- The request is read as the call that the client makes. -/
theorem Tracks.deliver (h : Tracks pb frame call R s) {onMessage : OnMessageState}
    (hb : s.toProvider = some frame) :
    Tracks pb frame call R
      { s with toProvider := none, onMessage := onMessage, done := .pending call } := by
  obtain ⟨-, habsent⟩ := h.request frame hb
  refine ⟨fun hc => ?_, by simp, by simp, fun _ => h.quiet (by simp [habsent]), by simp⟩
  have hnone := (h.calling hc).1
  simp [hb] at hnone

theorem Tracks.runDone (h : Tracks pb frame call R s) {response : M} (hR : R response)
    (hdone : s.done = .pending call) :
    Tracks pb frame call R ({ s with
      done := .ran
      conn := s.conn ++ reply pb call response
      toClient := s.toClient ++ wire (reply pb call response) } : State T M) := by
  obtain ⟨hquiet, hclient⟩ := h.quiet (by simp [hdone])
  refine ⟨fun hc => ?_, fun buffer hb => ?_, by simp, by simp, fun _ => ?_⟩
  · have habsent := (h.calling hc).2
    simp [hdone] at habsent
  · have habsent := (h.request buffer hb).2
    simp [hdone] at habsent
  · exact ⟨response, hR, .inl ⟨hclient, by rw [hquiet, List.nil_append]⟩⟩

theorem Tracks.recv (h : Tracks pb frame call R s) {segment : Segment} {rest : List Segment}
    (hwire : s.toClient = segment :: rest) (hc : s.client = .waiting) :
    Tracks pb frame call R { s with client := .returned segment.received, toClient := rest } := by
  have hran : s.done = .ran := by
    by_contra hne
    have hnil := (h.quiet hne).1
    simp [hwire] at hnil
  refine ⟨by simp, h.request, h.pending, fun hne => absurd hran hne, fun _ => ?_⟩
  obtain ⟨response, hR, ⟨-, hall⟩ | ⟨segment', hreturned, -⟩⟩ := h.ran hran
  · exact ⟨response, hR, .inr ⟨segment, rfl, by rw [← hall, hwire]⟩⟩
  · simp [hc] at hreturned

theorem Tracks.step (hcall : ∃ r, p.OnMessage pb e frame = .ok r ∧ r.call = some call)
    {a : Action M} (h : Tracks pb frame call R s)
    (ha : ∀ response, a = .runDone response → s.done = .pending call → R response)
    (hs : Exchange.step p pb e frame s a = some s') : Tracks pb frame call R s' := by
  obtain ⟨r, hr, hrcall⟩ := hcall
  cases a with
  | send =>
    simp only [Exchange.step] at hs
    split at hs
    · next hc =>
      cases hs
      exact h.send hc
    · cases hs
  | deliver =>
    simp only [Exchange.step] at hs
    split at hs
    · cases hs
    · next buffer hb =>
      obtain ⟨rfl, -⟩ := h.request buffer hb
      simp only [hr, hrcall] at hs
      cases hs
      exact h.deliver hb
  | runDone response =>
    simp only [Exchange.step] at hs
    split at hs
    · next call' hdone =>
      obtain rfl := h.pending call' hdone
      cases hs
      exact h.runDone (ha response rfl hdone) hdone
    · cases hs
  | finish =>
    simp only [Exchange.step] at hs
    split at hs
    · cases hs
      exact ⟨h.calling, h.request, h.pending, h.quiet, h.ran⟩
    · cases hs
  | recv =>
    simp only [Exchange.step] at hs
    split at hs
    · next b rest hc hwire =>
      cases hs
      exact h.recv hwire hc
    · next rest hc hwire =>
      cases hs
      exact h.recv hwire hc
    · cases hs

/-- The first segment of a reply holds the beginning of the encoding. -/
theorem received_eq {response : M} {segment : Segment} {rest : List Segment} {answer : Bytes}
    (hwire : wire (reply pb call response) = segment :: rest)
    (hanswer : (pb.message call.method.output_type).SerializeToString response = some answer) :
    segment.received = answer.take sizeofRecvBuf := by
  rw [reply, SendRpcResponse, hanswer] at hwire
  cases answer with
  | nil =>
    have hfin : wire [.send [], .shutdown] = [.fin] := rfl
    rw [hfin] at hwire
    obtain ⟨rfl, -⟩ := List.cons.inj hwire
    rfl
  | cons b bs =>
    have hdata : wire [.send (b :: bs), .shutdown] = [.data (b :: bs), .fin] := rfl
    rw [hdata] at hwire
    obtain ⟨rfl, -⟩ := List.cons.inj hwire
    rfl

/-- What holds on both sides after a run in which `done` is only run with responses from `R`. -/
theorem tracks_run (hcall : ∃ r, p.OnMessage pb e frame = .ok r ∧ r.call = some call)
    {G : State T M → Action M → Prop}
    (hR : ∀ s response, G s (.runDone response) → s.done = .pending call → R response)
    {as : List (Action M)} (hg : Guarded (Exchange.step p pb e frame) G start as)
    (hrun : run (Exchange.step p pb e frame) start as = some s) :
    Tracks pb frame call R s := by
  refine run_invariant (fun s a s' h ha hs => h.step hcall ?_ hs) tracks_start hg hrun
  rintro response rfl hdone
  exact hR s response ha hdone

/-- A client whose `recv` has returned holds the beginning of an answer. -/
theorem Tracks.returned (h : Tracks pb frame call R s) {data : Bytes}
    (hdata : s.client = .returned data) : ∃ response, R response ∧
      ∀ answer, (pb.message call.method.output_type).SerializeToString response = some answer →
        data = answer.take sizeofRecvBuf := by
  have hran : s.done = .ran := by
    by_contra hne
    exact (h.quiet hne).2 data hdata
  obtain ⟨response, hR, ⟨hnot, -⟩ | ⟨segment, hsegment, hwire⟩⟩ := h.ran hran
  · exact absurd hdata (hnot data)
  obtain rfl : segment.received = data := by
    simpa [hsegment] using hdata
  exact ⟨response, hR, fun answer hanswer => received_eq hwire hanswer⟩

end Exchange

/-- The provider reads the frame of a published method as the call that the client makes. -/
theorem Protobuf.Lawful.calls {T M : Type} {pb : Protobuf T M} (hpb : pb.Lawful) {e : Endian}
    {services : List (Service T)} (hnames : DistinctNames services) {service : Service T}
    (hservice : service ∈ services) {method : MethodDescriptor T}
    (hmethod : method ∈ service.GetDescriptor.methods) {request : M} {frame : Bytes}
    (hframe : encodeRequest pb e method request = .ok frame) :
    ∃ r, (publish services).OnMessage pb e frame = .ok r ∧
      r.call = some ⟨service, method, request⟩ := by
  have hpub := publishes_of_mem hnames hservice hmethod
  obtain ⟨hdr, hreads⟩ := reads_frame (c := ⟨service, method, request⟩) hpb hframe hpub
  obtain ⟨r, hr, -, hcall⟩ := OnMessage_returns hreads.not_throws
  exact ⟨r, hr, (hcall ⟨service, method, request⟩).mpr ⟨hdr, hreads⟩⟩

variable {F : Type} {rt : Runtime F} {e : Endian}

/-- **A call from end to end.** In every run of a client that calls a published method, with the
request and the answer delivered in one piece each: what the service is asked for is the request
object of the client; where the client's `recv` has returned, the service has answered, and the
client holds the first 1024 bytes of the answer, which are read as the response object unless
there are more. -/
theorem call_end_to_end (hrt : rt.Lawful) {services : List (Service MessageType)}
    (hnames : DistinctNames services) {service : Service MessageType}
    (hservice : service ∈ services) {method : MethodDescriptor MessageType}
    (hmethod : method ∈ service.GetDescriptor.methods) {request : AnyMessage rt} {frame : Bytes}
    (hframe : encodeRequest (generatedProtobuf hrt) e method request = .ok frame)
    (as : List (Exchange.Action (AnyMessage rt)))
    {s : Exchange.State MessageType (AnyMessage rt)}
    (hrun : run (Exchange.step (publish services) (generatedProtobuf hrt) e frame)
      Exchange.start as = some s) :
    (∀ call, s.done = .pending call → call = ⟨service, method, request⟩) ∧
    ∀ data, s.client = .returned data → ∃ response, .runDone response ∈ as ∧
      ∀ answer, (messageCodec hrt method.output_type).SerializeToString response = some answer →
        data = answer.take 1024 ∧ (answer.length ≤ 1024 →
          (messageCodec hrt method.output_type).ParseFromString data = some response) := by
  have hpb := generatedProtobuf_lawful hrt
  have htracks := Exchange.tracks_run (R := fun response => .runDone response ∈ as)
    (hpb.calls hnames hservice hmethod hframe) (G := fun _ a => a ∈ as)
    (fun _ _ hmem _ => hmem) (guarded_of_forall_mem (fun _ ha _ => ha) _) hrun
  refine ⟨htracks.pending, fun data hdata => ?_⟩
  obtain ⟨response, hmem, hreceived⟩ := htracks.returned hdata
  refine ⟨response, hmem, fun answer hanswer => ?_⟩
  obtain rfl := hreceived answer hanswer
  refine ⟨rfl, fun hlen => ?_⟩
  have hwhole : answer.take sizeofRecvBuf = answer := List.take_of_length_le hlen
  rw [hwhole]
  exact (hpb.message method.output_type).parse_serialize hanswer

/-! ## A login -/

def wireResponse : AnyMessage wireRuntime :=
  ⟨.LoginResponse, ⟨⟨⟨some ⟨⟨0, []⟩, []⟩, true⟩, []⟩,
    by rintro r ⟨⟩; exact ⟨trivial, by simp⟩, by simp⟩⟩

theorem call_end_to_end_login :
    ∃ s, run (Exchange.step (publish [UserService]) (generatedProtobuf wireRuntime_lawful)
        .little loginFrame) Exchange.start [.send, .deliver, .runDone wireResponse, .recv] =
        some s ∧
      s.client = .returned [0x0a, 0, 0x10, 1] ∧
      (messageCodec wireRuntime_lawful .LoginResponse).ParseFromString [0x0a, 0, 0x10, 1] =
        some wireResponse := by
  refine ⟨_, rfl, rfl, ?_⟩
  have hnames : DistinctNames [UserService] := ⟨by decide, by decide +kernel⟩
  have hframe : encodeRequest (generatedProtobuf wireRuntime_lawful) .little Login wireRequest =
      .ok loginFrame := by decide +kernel
  have hend := (call_end_to_end wireRuntime_lawful hnames (List.mem_singleton_self UserService)
    (by decide +kernel) hframe [.send, .deliver, .runDone wireResponse, .recv] rfl).2
  obtain ⟨response, hmem, hanswer⟩ := hend [0x0a, 0, 0x10, 1] rfl
  obtain rfl : response = wireResponse := by simpa using hmem
  exact (hanswer [0x0a, 0, 0x10, 1] rfl).2 (by decide)

end CppInOne.Mprpc
