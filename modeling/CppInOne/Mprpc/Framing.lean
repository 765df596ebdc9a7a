import CppInOne.Mprpc.MprpcChannel
import CppInOne.Mprpc.RequestSafety

/-!
# Requests in a byte stream

A connection is a byte stream, and TCP hands it out in pieces of its own choosing.
`OnMessage` takes each piece for one request: it neither keeps the beginning of a request
for the next piece nor looks behind the end of one. This file proves which deliveries
dispatch the requests that were sent.
-/

namespace CppInOne.Mprpc.RpcProvider
open ByteString MprpcChannel

variable {T M : Type} {p : RpcProvider T} {pb : Protobuf T M} {e : Endian}

/-! ## A connection -/

/-- The provider's side of one connection. -/
structure Session (T M : Type) where
  inputBuffer : Bytes
  calls : List (Call T M)
  /-- An exception leaves the event loop and ends the process. -/
  terminated : Bool

def Session.start : Session T M := ⟨[], [], false⟩

/-- One delivery: the bytes are appended to the input buffer and `OnMessage` is called. -/
def Session.receive (p : RpcProvider T) (pb : Protobuf T M) (e : Endian) (s : Session T M)
    (chunk : Bytes) : Session T M :=
  if s.terminated then s
  else
    match p.OnMessage pb e (s.inputBuffer ++ chunk) with
    | .error _ => { s with terminated := true }
    | .ok r => { s with inputBuffer := r.buffer, calls := s.calls ++ r.call.toList }

/-- The calls of `Service::CallMethod` that a sequence of deliveries leads to. -/
def dispatched (p : RpcProvider T) (pb : Protobuf T M) (e : Endian) (chunks : List Bytes) :
    List (Call T M) :=
  (chunks.foldl (Session.receive p pb e) .start).calls

theorem receive_terminated {s : Session T M} (h : s.terminated = true) (chunks : List Bytes) :
    chunks.foldl (Session.receive p pb e) s = s := by
  induction chunks with
  | nil => rfl
  | cons c chunks ih => rw [List.foldl_cons, Session.receive, if_pos h, ih]

/-- Earlier calls do not matter to later deliveries. -/
theorem calls_foldl_receive {s : Session T M} (hbuf : s.inputBuffer = [])
    (hrun : s.terminated = false) (chunks : List Bytes) :
    (chunks.foldl (Session.receive p pb e) s).calls = s.calls ++ dispatched p pb e chunks := by
  induction chunks generalizing s with
  | nil => exact (List.append_nil _).symm
  | cons c chunks ih =>
    unfold dispatched
    simp only [List.foldl_cons, Session.receive, hbuf, hrun, Session.start, List.nil_append]
    by_cases hthrows : Throws pb e c
    · simp [OnMessage_throws hthrows, receive_terminated]
    · obtain ⟨r, hr, hempty, -⟩ := OnMessage_returns (p := p) hthrows
      simp only [hr, Bool.false_eq_true, if_false]
      rw [ih hempty rfl, ih hempty rfl, List.append_assoc]

theorem dispatched_throws {c : Bytes} (h : Throws pb e c) (chunks : List Bytes) :
    dispatched p pb e (c :: chunks) = [] := by
  simp [dispatched, Session.receive, Session.start, OnMessage_throws h, receive_terminated]

/-- Every delivery is handled by itself. -/
theorem dispatched_cons {c : Bytes} {r : Handled T M} (hr : p.OnMessage pb e c = .ok r)
    (hbuf : r.buffer = []) (chunks : List Bytes) :
    dispatched p pb e (c :: chunks) = r.call.toList ++ dispatched p pb e chunks := by
  unfold dispatched
  simp only [List.foldl_cons, Session.receive, Session.start, hr, List.nil_append]
  exact calls_foldl_receive hbuf rfl chunks

/-! ## One request -/

/-- The provider knows the method of this request under the names that its header carries. -/
def Published (p : RpcProvider T) (c : Call T M) : Prop :=
  p.Publishes c.method.service c.method.name c.service c.method

theorem headerSize_store (w : UInt32) (s : Bytes) : headerSize e (e.store w ++ s) = w := by
  rw [headerSize, Endian.copy_word, Endian.load_store]

theorem headerSize_eq {b : Bytes} (h : 4 ≤ b.length) : headerSize e b = e.load (b.take 4) := by
  have hz : (e.store 0).drop 4 = [] := List.drop_eq_nil_of_le (by simp)
  rw [headerSize, copy, Nat.min_eq_left h, hz, List.append_nil]

/-- The parts of an encoded request. -/
theorem encodeRequest_ok {method : MethodDescriptor T} {request : M} {f : Bytes}
    (h : encodeRequest pb e method request = .ok f) :
    ∃ args header,
      (pb.message method.input_type).SerializeToString request = some args ∧
      pb.RpcHeader.SerializeToString ⟨method.service, method.name, .ofNat args.length⟩ =
        some header ∧
      f = e.store (.ofNat header.length) ++ header ++ args := by
  unfold encodeRequest at h
  cases hargs : (pb.message method.input_type).SerializeToString request with
  | none => simp [hargs] at h
  | some args =>
    simp only [hargs] at h
    cases hheader : pb.RpcHeader.SerializeToString
        ⟨method.service, method.name, .ofNat args.length⟩ with
    | none => simp [hheader] at h
    | some header =>
      simp only [hheader] at h
      exact ⟨args, header, rfl, hheader, (Except.ok.inj h).symm⟩

theorem toNat_ofNat_of_lt {n : Nat} (h : n < 2 ^ 31) : (UInt32.ofNat n).toNat = n := by
  rw [UInt32.toNat_ofNat']
  omega

/-- The parts of a frame are where `OnMessage` looks for them. -/
theorem frame_parts {header args : Bytes} {args_size : UInt32}
    (hoffset : 4 + header.length < 2 ^ 32) (hsize : args_size.toNat = args.length) {f : Bytes}
    (hf : f = e.store (.ofNat header.length) ++ header ++ args) :
    4 ≤ f.length ∧ headerStr e f = header ∧ argsOffset e f ≤ f.length ∧
      argsStr e f args_size = args := by
  have hlength : (UInt32.ofNat header.length).toNat = header.length := by
    rw [UInt32.toNat_ofNat']
    omega
  have hword : headerSize e f = .ofNat header.length := by
    rw [hf, List.append_assoc, headerSize_store]
  have hargs : argsOffset e f = 4 + header.length := by
    rw [argsOffset_eq (by rw [hword, hlength]; exact hoffset), hword, hlength]
  refine ⟨?_, ?_, ?_, ?_⟩
  · simp [hf]
  · rw [headerStr, hword, hlength, hf, List.append_assoc, List.drop_left' (Endian.store_length ..),
      List.take_left]
  · rw [hargs, hf]
    simp
  · rw [argsStr, hargs, hsize, hf, List.drop_left' (by simp), List.take_length]

/-- An encoded request is read as this request. -/
theorem reads_frame (hpb : pb.Lawful) {c : Call T M} {f : Bytes}
    (hf : encodeRequest pb e c.method c.request = .ok f) (hpub : p.Published c) :
    ∃ hdr, p.Reads pb e f hdr c := by
  obtain ⟨args, header, hargs, hheader, hparts⟩ := encodeRequest_ok hf
  have hlt := hpb.RpcHeader.length_lt hheader
  have hargsSize := toNat_ofNat_of_lt ((hpb.message _).length_lt hargs)
  obtain ⟨hword, hheaderStr, hoffset, hargsStr⟩ := frame_parts (by omega) hargsSize hparts
  refine ⟨⟨c.method.service, c.method.name, .ofNat args.length⟩, hword, ?_, hoffset, hpub, ?_⟩
  · rw [hheaderStr]
    exact hpb.RpcHeader.parse_serialize hheader
  · rw [hargsStr]
    exact (hpb.message _).parse_serialize hargs

/-! ## No shorter piece does -/

/-- No encoding of this request is shorter than the one that is sent. -/
def Shortest (pb : Protobuf T M) (c : Call T M) : Prop :=
  ∀ args args', (pb.message c.method.input_type).SerializeToString c.request = some args →
    (pb.message c.method.input_type).ParseFromString args' = some c.request →
    args.length ≤ args'.length

theorem argsOffset_wrap {b : Bytes} (h : 2 ^ 32 ≤ 4 + (headerSize e b).toNat) :
    argsOffset e b = 4 + (headerSize e b).toNat - 2 ^ 32 := by
  have hlt := (headerSize e b).toNat_lt
  unfold argsOffset
  rw [UInt32.toNat_add]
  show (4 + (headerSize e b).toNat) % 2 ^ 32 = _
  omega

/-- When `4 + header_size` wraps, what is taken for the args starts inside the length word. -/
theorem argsStr_nil_of_wrap (hcompact : pb.Compact) {b : Bytes} (hword : 4 ≤ b.length)
    (hwrap : 2 ^ 32 ≤ 4 + (headerSize e b).toNat) {t : T} {args_size : UInt32} {m : M}
    (hparse : (pb.message t).ParseFromString (argsStr e b args_size) = some m) :
    argsStr e b args_size = [] := by
  cases hargs : argsStr e b args_size with
  | nil => rfl
  | cons x xs =>
    obtain ⟨hfc, hff⟩ := hcompact.first_byte (hargs ▸ hparse)
    rw [headerSize_eq hword] at hwrap
    obtain ⟨y, hy, hbyte⟩ := Endian.byte_of_wrap e (by simp [hword]) hwrap
    have hlt := (e.load (b.take 4)).toNat_lt
    have hx : b[argsOffset e b]? = some x := by
      have hhead : (argsStr e b args_size).head? = some x := by rw [hargs, List.head?_cons]
      rw [argsStr, List.head?_take] at hhead
      split at hhead
      · simp at hhead
      · rwa [List.head?_drop] at hhead
    have hxy : some x = some y := by
      rw [← hx, argsOffset_wrap (by rwa [headerSize_eq hword]), headerSize_eq hword, ← hy,
        List.getElem?_take_of_lt (by omega)]
    obtain rfl := Option.some.inj hxy
    obtain h | h := hbyte
    · exact absurd h hfc
    · exact absurd h hff

/-- A piece that is read as a request is at least as long as the encoded request. -/
theorem Reads.length_le (hpb : pb.Lawful) (hcompact : pb.Compact) (hnamed : p.WellNamed)
    {c : Call T M} (hshort : Shortest pb c) {f b : Bytes} {hdr : RpcHeader}
    (hf : encodeRequest pb e c.method c.request = .ok f) (h : p.Reads pb e b hdr c) :
    f.length ≤ b.length := by
  obtain ⟨args, header, hargs, hheader, rfl⟩ := encodeRequest_ok hf
  obtain ⟨hservice, hname⟩ := hnamed _ _ _ _ h.publishes
  have hword := h.word
  have hoff := h.offset
  have hargsLe : args.length ≤ (argsStr e b hdr.args_size).length := hshort _ _ hargs h.args
  have hargsSize := toNat_ofNat_of_lt ((hpb.message _).length_lt hargs)
  have hsize : UInt32.ofNat args.length ≤ hdr.args_size := by
    have htake : (argsStr e b hdr.args_size).length ≤ hdr.args_size.toNat :=
      List.length_take_le ..
    rw [UInt32.le_iff_toNat_le, hargsSize]
    exact Nat.le_trans hargsLe htake
  have hheaderLe : header.length ≤ (headerStr e b).length :=
    hcompact.header_length hheader h.header hservice.symm hname.symm hsize
  simp only [headerStr, List.length_take, List.length_drop] at hheaderLe
  simp only [List.length_append, Endian.store_length]
  -- without wrap the args lie behind the header; with it they must be empty
  by_cases hwrap : 2 ^ 32 ≤ 4 + (headerSize e b).toNat
  · rw [argsStr_nil_of_wrap hcompact hword hwrap h.args] at hargsLe
    simp only [List.length_nil] at hargsLe
    omega
  · rw [argsOffset_eq (Nat.not_le.mp hwrap)] at hoff
    simp only [argsStr, argsOffset_eq (Nat.not_le.mp hwrap), List.length_take,
      List.length_drop] at hargsLe
    omega

/-! ## The stream -/

/-- These bytes are what `MprpcChannel::CallMethod` sends for these requests. -/
def Encoded (pb : Protobuf T M) (e : Endian) (requests : List (Call T M))
    (frames : List Bytes) : Prop :=
  requests.Forall₂ (fun c f => encodeRequest pb e c.method c.request = .ok f) frames

theorem dispatched_frames (hpb : pb.Lawful) {requests : List (Call T M)} {frames : List Bytes}
    (hframes : Encoded pb e requests frames) (hpub : ∀ c ∈ requests, p.Published c) :
    dispatched p pb e frames = requests := by
  induction hframes with
  | nil => rfl
  | @cons c f requests frames hf _ ih =>
    obtain ⟨hdr, hreads⟩ := reads_frame hpb hf (hpub c List.mem_cons_self)
    obtain ⟨r, hr, hbuf, hcall⟩ := OnMessage_returns (p := p) hreads.not_throws
    rw [dispatched_cons hr hbuf, (hcall c).mpr ⟨hdr, hreads⟩,
      ih fun d hd => hpub d (List.mem_cons_of_mem c hd)]
    rfl

/-- Each dispatched request comes from a piece of its own, which is long enough for it. -/
theorem pieces_of_dispatched (hpb : pb.Lawful) (hcompact : pb.Compact) (hnamed : p.WellNamed)
    {requests : List (Call T M)} {frames chunks : List Bytes}
    (hframes : Encoded pb e requests frames) (hshort : ∀ c ∈ requests, Shortest pb c)
    (h : dispatched p pb e chunks = requests) :
    (∀ c ∈ requests, p.Published c) ∧
      frames.SublistForall₂ (fun f b => f.length ≤ b.length) chunks := by
  induction chunks generalizing requests frames with
  | nil =>
    obtain rfl : requests = [] := h.symm
    cases hframes
    exact ⟨by simp, .nil⟩
  | cons b chunks ih =>
    by_cases hthrows : Throws pb e b
    · rw [dispatched_throws hthrows] at h
      subst h
      cases hframes
      exact ⟨by simp, .nil⟩
    · obtain ⟨r, hr, hbuf, hcall⟩ := OnMessage_returns (p := p) hthrows
      rw [dispatched_cons hr hbuf] at h
      cases hc : r.call with
      | none =>
        -- the piece was turned away and its bytes are lost
        rw [hc] at h
        obtain ⟨hpub, hpieces⟩ := ih hframes hshort h
        exact ⟨hpub, .cons_right hpieces⟩
      | some c =>
        rw [hc] at h
        subst h
        obtain ⟨hdr, hreads⟩ := (hcall c).mp hc
        cases hframes with
        | @cons _ f _ frames hf hframes =>
          obtain ⟨hpub, hpieces⟩ :=
            ih hframes (fun d hd => hshort d (List.mem_cons_of_mem c hd)) rfl
          refine ⟨?_, .cons ?_ hpieces⟩
          · intro d hd
            obtain rfl | hd := List.mem_cons.mp hd
            · obtain ⟨hservice, hname⟩ := hnamed _ _ _ _ hreads.publishes
              have hpublishes := hreads.publishes
              rwa [← hservice, ← hname] at hpublishes
            · exact hpub d hd
          · exact hreads.length_le hpb hcompact hnamed (hshort c List.mem_cons_self) hf

/-- **The requests are dispatched as they were sent when every delivery is exactly one of
them, and only then**: any other cutting of the stream loses a request or invents one. The
second half takes the wire format and the requests to have no shorter encodings, so that an
odd piece cannot stand for a request by accident. -/
theorem dispatched_requests (hpb : pb.Lawful) (services : List (Service T))
    {requests : List (Call T M)} {frames chunks : List Bytes}
    (hframes : Encoded pb e requests frames) (hne : ∀ b ∈ chunks, b ≠ [])
    (hcut : chunks.flatten = frames.flatten) :
    ((∀ c ∈ requests, (publish services).Published c) ∧ chunks = frames →
      dispatched (publish services) pb e chunks = requests) ∧
    (pb.Compact → (∀ c ∈ requests, Shortest pb c) →
      dispatched (publish services) pb e chunks = requests →
      (∀ c ∈ requests, (publish services).Published c) ∧ chunks = frames) := by
  constructor
  · rintro ⟨hpub, rfl⟩
    exact dispatched_frames hpb hframes hpub
  · intro hcompact hshort h
    obtain ⟨hpub, hpieces⟩ :=
      pieces_of_dispatched hpb hcompact (wellNamed_publish services) hframes hshort h
    exact ⟨hpub, eq_of_sublistForall₂ hpieces hne hcut⟩

/-! ## A login in two pieces -/

def loginCall : Call MessageType Message := ⟨UserService, Login, loginRequest⟩

def loginFrame : Bytes := Endian.store .little 25 ++ loginHeaderStr ++ loginArgs

theorem loginFrame_encoded : Encoded userProtobuf .little [loginCall] [loginFrame] :=
  .cons (by decide +kernel) .nil

theorem loginCall_published : (publish [UserService]).Published loginCall :=
  ⟨{ m_service := UserService, m_methodMap := methodMap [Login, Register] }, by decide +kernel,
    rfl, by decide +kernel⟩

theorem loginCall_shortest : Shortest userProtobuf loginCall := by
  intro args args' hargs hargs'
  have hmem := Codec.mem_of_serialize_table hargs
  have hmem' := Codec.mem_of_parse_table hargs'
  simp only [List.mem_singleton, Prod.mk.injEq] at hmem hmem'
  have heq : args = args' := hmem.2.trans hmem'.2.symm
  exact Nat.le_of_eq (congrArg List.length heq)

theorem dispatched_requests_login :
    dispatched (publish [UserService]) userProtobuf .little [loginFrame] = [loginCall] ∧
    dispatched (publish [UserService]) userProtobuf .little
      [loginFrame.take 2, loginFrame.drop 2] ≠ [loginCall] := by
  have hpub : ∀ c ∈ [loginCall], (publish [UserService]).Published c := by
    simpa using loginCall_published
  constructor
  · exact (dispatched_requests userProtobuf_lawful [UserService] loginFrame_encoded
      (by decide +kernel) rfl).1 ⟨hpub, rfl⟩
  · intro h
    obtain ⟨-, hchunks⟩ := (dispatched_requests userProtobuf_lawful [UserService]
      loginFrame_encoded (by decide +kernel) (by simp)).2 userProtobuf_compact
      (by simpa using loginCall_shortest) h
    simp at hchunks

/-- A login whose length word is cut in two is not dispatched: `OnMessage` throws on the first
piece. -/
theorem cut_login_lost :
    (Encoded userProtobuf .little [loginCall] [loginFrame] ∧
      (publish [UserService]).Published loginCall ∧
      [loginFrame.take 2, loginFrame.drop 2].flatten = [loginFrame].flatten ∧
      ∀ b ∈ [loginFrame.take 2, loginFrame.drop 2], b ≠ []) ∧
    dispatched (publish [UserService]) userProtobuf .little
      [loginFrame.take 2, loginFrame.drop 2] ≠ [loginCall] := by
  refine ⟨⟨loginFrame_encoded, loginCall_published, by simp, by decide +kernel⟩, ?_⟩
  rw [dispatched_throws (Or.inl (by decide +kernel))]
  simp

end CppInOne.Mprpc.RpcProvider
