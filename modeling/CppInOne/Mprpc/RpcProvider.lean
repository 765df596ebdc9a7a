import CppInOne.Mprpc.Protobuf

/-!
# The RPC provider

`OnMessage` takes everything out of the receive buffer, looks for one request in it and
either calls the published method or gives up. The debug output on `std::cout` is left out.

## Main results

- `OnMessage_error` — exactly when `OnMessage` throws
- `OnMessage_call` — exactly what it calls
- `OnMessage_refused` — exactly when it returns without calling anything
-/

namespace CppInOne.Mprpc
open ByteString

variable {T M : Type}

structure ServiceInfo (T : Type) where
  m_service : Service T
  m_methodMap : UnorderedMap Bytes (MethodDescriptor T)
  deriving DecidableEq, Repr

structure RpcProvider (T : Type) where
  m_serviceMap : UnorderedMap Bytes (ServiceInfo T)
  deriving DecidableEq, Repr

/-- One call of `Service::CallMethod`. -/
structure Call (T M : Type) where
  service : Service T
  method : MethodDescriptor T
  request : M
  deriving DecidableEq, Repr

/-- What one `OnMessage` that returns has done. -/
structure Handled (T M : Type) where
  /-- The complaint written to `std::cout`. -/
  cout : Bytes
  call : Option (Call T M)
  /-- What is left in the receive buffer. -/
  buffer : Bytes
  deriving DecidableEq, Repr

namespace RpcProvider

/-! ## Publishing services -/

def create : RpcProvider T := ⟨.empty⟩

/-- The loop of `NotifyService` over the method descriptors. -/
def methodMap (methods : List (MethodDescriptor T)) : UnorderedMap Bytes (MethodDescriptor T) :=
  methods.foldl (fun m pmethodDesc => m.insert pmethodDesc.name pmethodDesc) .empty

def NotifyService (p : RpcProvider T) (service : Service T) : RpcProvider T :=
  let pserviceDesc := service.GetDescriptor
  let service_info : ServiceInfo T :=
    { m_service := service, m_methodMap := methodMap pserviceDesc.methods }
  { p with m_serviceMap := p.m_serviceMap.insert pserviceDesc.name service_info }

/-- The provider after `NotifyService` was called for each of these services. -/
def publish (services : List (Service T)) : RpcProvider T :=
  services.foldl NotifyService create

/-- Under these names `OnMessage` finds this service object and this method. -/
def Publishes (p : RpcProvider T) (service_name method_name : Bytes) (service : Service T)
    (method : MethodDescriptor T) : Prop :=
  ∃ it, p.m_serviceMap.find service_name = some it ∧ it.m_service = service ∧
    it.m_methodMap.find method_name = some method

theorem of_find_methodMap {methods : List (MethodDescriptor T)} {name : Bytes}
    {method : MethodDescriptor T} (h : (methodMap methods).find name = some method) :
    method ∈ methods ∧ method.name = name := by
  -- induction on what is still to be inserted, for any map of earlier entries
  have key : ∀ (rest : List (MethodDescriptor T)) (m : UnorderedMap Bytes (MethodDescriptor T)),
      (∀ n d, m.find n = some d → d ∈ methods ∧ d.name = n) → (∀ d ∈ rest, d ∈ methods) →
      ∀ n d, (rest.foldl (fun m d => m.insert d.name d) m).find n = some d →
        d ∈ methods ∧ d.name = n := by
    intro rest
    induction rest with
    | nil => exact fun m hm _ => hm
    | cons x rest ih =>
      intro m hm hrest
      refine ih _ (fun n d hd => ?_) (fun d hd => hrest d (List.mem_cons_of_mem x hd))
      obtain hold | ⟨rfl, rfl⟩ := UnorderedMap.of_find_insert hd
      · exact hm n d hold
      · exact ⟨hrest d List.mem_cons_self, rfl⟩
  exact key methods .empty (by simp) (fun d hd => hd) name method h

/-- Services and methods are kept under their own names. -/
def WellNamed (p : RpcProvider T) : Prop :=
  ∀ service_name method_name service method,
    p.Publishes service_name method_name service method →
      method.service = service_name ∧ method.name = method_name

theorem WellNamed.NotifyService {p : RpcProvider T} (h : p.WellNamed) (service : Service T) :
    (p.NotifyService service).WellNamed := by
  rintro service_name method_name _ method ⟨it, hit, rfl, hmethod⟩
  obtain hold | ⟨rfl, rfl⟩ := UnorderedMap.of_find_insert hit
  · exact h service_name method_name _ method ⟨it, hold, rfl, hmethod⟩
  · obtain ⟨hmem, hname⟩ := of_find_methodMap hmethod
    exact ⟨service.GetDescriptor.service_eq method hmem, hname⟩

theorem wellNamed_publish (services : List (Service T)) : (publish services).WellNamed := by
  have key : ∀ p : RpcProvider T, p.WellNamed →
      (services.foldl RpcProvider.NotifyService p).WellNamed := by
    induction services with
    | nil => exact fun p hp => hp
    | cons service services ih => exact fun p hp => ih _ (hp.NotifyService service)
  refine key create ?_
  rintro _ _ _ _ ⟨it, hit, -⟩
  simp [create] at hit

/-! ## Requests -/

/-- The first four bytes of the buffer over a word that was set to 0. -/
def headerSize (e : Endian) (recv_buf : Bytes) : UInt32 :=
  e.load (copy recv_buf (e.store 0) 4)

/-- `4 + header_size`, computed in `uint32_t`. -/
def argsOffset (e : Endian) (recv_buf : Bytes) : Nat := (4 + headerSize e recv_buf).toNat

def OnMessage (p : RpcProvider T) (pb : Protobuf T M) (e : Endian) (buffer : Bytes) :
    Except Exception (Handled T M) := do
  -- `retrieveAllAsString`
  let (recv_buf, buffer) := (buffer, [])
  let header_size := headerSize e recv_buf
  let rpc_header_str ← substr recv_buf 4 header_size.toNat
  match pb.RpcHeader.ParseFromString rpc_header_str with
  | none =>
    return { cout := ascii "rpc_header_str:" ++ rpc_header_str ++ ascii " parse error!"
             call := none
             buffer }
  | some rpcHeader =>
    let service_name := rpcHeader.service_name
    let method_name := rpcHeader.method_name
    let args_size := rpcHeader.args_size
    let args_str ← substr recv_buf (argsOffset e recv_buf) args_size.toNat
    match p.m_serviceMap.find service_name with
    | none => return { cout := service_name ++ ascii " is not exist!", call := none, buffer }
    | some it =>
      match it.m_methodMap.find method_name with
      | none => return { cout := method_name ++ ascii " is not exist!", call := none, buffer }
      | some method =>
        match (pb.message method.input_type).ParseFromString args_str with
        | none =>
          return { cout := ascii "request parse error, content:" ++ args_str
                   call := none
                   buffer }
        | some request =>
          return { cout := [], call := some { service := it.m_service, method, request }, buffer }

/-! ## Responses -/

/-- What the framework does to the `TcpConnection`. -/
inductive ConnCall where
  | send (data : Bytes)
  | shutdown
  deriving DecidableEq, Repr

def SendRpcResponse (c : Codec M) (response : M) : List ConnCall :=
  match c.SerializeToString response with
  | some response_str => [.send response_str, .shutdown]
  | none => [.shutdown]

theorem shutdown_mem_SendRpcResponse (c : Codec M) (response : M) :
    .shutdown ∈ SendRpcResponse c response := by
  unfold SendRpcResponse
  split <;> simp

/-! ## The outcomes of `OnMessage` -/

/-- The header bytes that `OnMessage` parses: cut off where the buffer ends. -/
def headerStr (e : Endian) (recv_buf : Bytes) : Bytes :=
  (recv_buf.drop 4).take (headerSize e recv_buf).toNat

/-- The args bytes that `OnMessage` parses, again cut off where the buffer ends. -/
def argsStr (e : Endian) (recv_buf : Bytes) (args_size : UInt32) : Bytes :=
  (recv_buf.drop (argsOffset e recv_buf)).take args_size.toNat

/-- One of the two `substr` positions lies behind the end of the buffer. -/
def Throws (pb : Protobuf T M) (e : Endian) (b : Bytes) : Prop :=
  b.length < 4 ∨
    ∃ hdr, pb.RpcHeader.ParseFromString (headerStr e b) = some hdr ∧ b.length < argsOffset e b

/-- The buffer is read as this call. -/
structure Reads (p : RpcProvider T) (pb : Protobuf T M) (e : Endian) (b : Bytes)
    (hdr : RpcHeader) (c : Call T M) : Prop where
  word : 4 ≤ b.length
  header : pb.RpcHeader.ParseFromString (headerStr e b) = some hdr
  offset : argsOffset e b ≤ b.length
  publishes : p.Publishes hdr.service_name hdr.method_name c.service c.method
  args : (pb.message c.method.input_type).ParseFromString (argsStr e b hdr.args_size) =
    some c.request

variable {p : RpcProvider T} {pb : Protobuf T M} {e : Endian} {b : Bytes}

/-- A buffer is read in one way only. -/
theorem Reads.header_unique {hdr hdr' : RpcHeader} {c : Call T M}
    (h : p.Reads pb e b hdr c)
    (h' : pb.RpcHeader.ParseFromString (headerStr e b) = some hdr') : hdr = hdr' := by
  have heq : some hdr = some hdr' := h.header.symm.trans h'
  exact Option.some.inj heq

theorem Reads.not_throws {hdr : RpcHeader} {c : Call T M} (h : p.Reads pb e b hdr c) :
    ¬ Throws pb e b := by
  rintro (hlen | ⟨hdr', hparse, hoff⟩)
  · exact absurd h.word (Nat.not_le.mpr hlen)
  · exact absurd h.offset (Nat.not_le.mpr hoff)

theorem OnMessage_short (h : b.length < 4) : p.OnMessage pb e b = .error .out_of_range := by
  simp [OnMessage, substr_error h, bind, Except.bind]

theorem OnMessage_noHeader (h : 4 ≤ b.length)
    (hparse : pb.RpcHeader.ParseFromString (headerStr e b) = none) :
    ∃ r, p.OnMessage pb e b = .ok r ∧ r.call = none ∧ r.buffer = [] := by
  unfold headerStr at hparse
  simp [OnMessage, substr_ok h, bind, Except.bind, hparse, pure, Except.pure]

theorem OnMessage_offset {hdr : RpcHeader} (h : 4 ≤ b.length)
    (hparse : pb.RpcHeader.ParseFromString (headerStr e b) = some hdr)
    (hoff : b.length < argsOffset e b) : p.OnMessage pb e b = .error .out_of_range := by
  unfold headerStr at hparse
  simp [OnMessage, substr_ok h, bind, Except.bind, hparse, substr_error hoff]

/-- Behind the second `substr` only the lookups and the args decide. -/
theorem OnMessage_args {hdr : RpcHeader} (h : 4 ≤ b.length)
    (hparse : pb.RpcHeader.ParseFromString (headerStr e b) = some hdr)
    (hoff : argsOffset e b ≤ b.length) :
    ∃ r, p.OnMessage pb e b = .ok r ∧ r.buffer = [] ∧
      ∀ c, r.call = some c ↔
        p.Publishes hdr.service_name hdr.method_name c.service c.method ∧
          (pb.message c.method.input_type).ParseFromString (argsStr e b hdr.args_size) =
            some c.request := by
  unfold headerStr at hparse
  simp only [OnMessage, substr_ok h, bind, Except.bind, hparse, substr_ok hoff, pure, Except.pure,
    Publishes, argsStr]
  cases hs : p.m_serviceMap.find hdr.service_name with
  | none => exact ⟨_, rfl, rfl, by simp⟩
  | some it =>
    dsimp only
    cases hm : it.m_methodMap.find hdr.method_name with
    | none =>
      refine ⟨_, rfl, rfl, fun c => ?_⟩
      simp [hm]
    | some method =>
      dsimp only
      cases hr : (pb.message method.input_type).ParseFromString
          ((b.drop (argsOffset e b)).take hdr.args_size.toNat) with
      | none =>
        refine ⟨_, rfl, rfl, fun c => ?_⟩
        simp only [reduceCtorEq, false_iff, not_and]
        rintro ⟨_, hit, -, hc⟩
        cases hit
        obtain rfl : method = c.method := by simpa [hm] using hc
        simp [hr]
      | some request =>
        -- every lookup has one result, so the call found is the only one
        refine ⟨_, rfl, rfl, fun c => ⟨?_, ?_⟩⟩
        · intro hc
          cases hc
          exact ⟨⟨it, rfl, rfl, hm⟩, hr⟩
        · rintro ⟨⟨_, hit, hsvc, hc⟩, hargs⟩
          cases hit
          obtain ⟨service, method', request'⟩ := c
          obtain rfl : method = method' := by simpa [hm] using hc
          obtain rfl : request = request' := by simpa [hr] using hargs
          exact congrArg (fun s => some (Call.mk s method request)) hsvc

/-- **`OnMessage` throws exactly when a position lies behind the end.** -/
theorem OnMessage_throws (h : Throws pb e b) : p.OnMessage pb e b = .error .out_of_range := by
  by_cases hlen : b.length < 4
  · exact OnMessage_short hlen
  · obtain ⟨hdr, hparse, hoff⟩ := h.resolve_left hlen
    exact OnMessage_offset (Nat.not_lt.mp hlen) hparse hoff

/-- **Otherwise it returns, having emptied the buffer and called what it read.** -/
theorem OnMessage_returns (h : ¬ Throws pb e b) :
    ∃ r, p.OnMessage pb e b = .ok r ∧ r.buffer = [] ∧
      ∀ c, r.call = some c ↔ ∃ hdr, p.Reads pb e b hdr c := by
  obtain ⟨hlen, hoff⟩ := not_or.mp h
  have hlen : 4 ≤ b.length := Nat.not_lt.mp hlen
  cases hparse : pb.RpcHeader.ParseFromString (headerStr e b) with
  | none =>
    obtain ⟨r, hr, hcall, hbuf⟩ := OnMessage_noHeader (p := p) hlen hparse
    refine ⟨r, hr, hbuf, fun c => ?_⟩
    simp only [hcall, reduceCtorEq, false_iff]
    rintro ⟨hdr, hreads⟩
    simpa [hparse] using hreads.header
  | some hdr =>
    have hoff : argsOffset e b ≤ b.length :=
      Nat.not_lt.mp fun hlt => hoff ⟨hdr, hparse, hlt⟩
    obtain ⟨r, hr, hbuf, hcall⟩ := OnMessage_args (p := p) hlen hparse hoff
    refine ⟨r, hr, hbuf, fun c => (hcall c).trans ⟨?_, ?_⟩⟩
    · rintro ⟨hpub, hargs⟩
      exact ⟨hdr, hlen, hparse, hoff, hpub, hargs⟩
    · rintro ⟨hdr', hreads⟩
      obtain rfl : hdr = hdr' := by simpa [hparse] using hreads.header
      exact ⟨hreads.publishes, hreads.args⟩

end RpcProvider

end CppInOne.Mprpc
