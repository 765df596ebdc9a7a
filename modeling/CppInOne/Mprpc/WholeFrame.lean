import CppInOne.Mprpc.Framing

/-!
# Whole frames

The bytes that `MprpcChannel::CallMethod` builds for a request, given to `RpcProvider::OnMessage`
as the whole content of its buffer, on a machine of the same byte order. Of protobuf only the
round trip is assumed; a message may have any size that a `uint32_t` holds.

## Main results

- `whole_frame_called` — `OnMessage` calls the method of the request, or nothing
-/

namespace CppInOne.Mprpc
open ByteString MprpcChannel RpcProvider

variable {T M : Type} {pb : Protobuf T M} {e : Endian}

/-- Parsing inverts serializing, whatever the sizes. -/
def Codec.Inverts {M : Type} (c : Codec M) : Prop :=
  ∀ m b, c.SerializeToString m = some b → c.ParseFromString b = some m

/-- No two services have one name, nor two methods of a service. -/
structure DistinctNames (services : List (Service T)) : Prop where
  service_names : services.Pairwise fun s s' => s.GetDescriptor.name ≠ s'.GetDescriptor.name
  method_names : ∀ s ∈ services, s.GetDescriptor.methods.Pairwise fun m m' => m.name ≠ m'.name

/-! ## The tables of the provider -/

theorem find_methodMap (methods : List (MethodDescriptor T)) (name : Bytes) :
    (methodMap methods).find name = methods.find? fun m => name == m.name := by
  have hfind := UnorderedMap.find_foldl_insert (fun m : MethodDescriptor T => m.name) id
    UnorderedMap.empty methods name
  rw [UnorderedMap.find_empty, Option.none_or, Option.map_id] at hfind
  exact hfind

theorem find_publish (services : List (Service T)) (name : Bytes) :
    (publish services).m_serviceMap.find name =
      (services.find? fun s => name == s.GetDescriptor.name).map fun s =>
        { m_service := s, m_methodMap := methodMap s.GetDescriptor.methods } := by
  have hfold : ∀ p : RpcProvider T, (services.foldl NotifyService p).m_serviceMap =
      services.foldl (fun m s => m.insert s.GetDescriptor.name
        { m_service := s, m_methodMap := methodMap s.GetDescriptor.methods }) p.m_serviceMap := by
    induction services with
    | nil => exact fun _ => rfl
    | cons s services ih => exact fun p => ih (p.NotifyService s)
  rw [publish, hfold, UnorderedMap.find_foldl_insert]
  simp [create]

/-- Services and methods with names of their own are found. -/
theorem publishes_of_mem {services : List (Service T)} (h : DistinctNames services)
    {service : Service T} (hservice : service ∈ services) {method : MethodDescriptor T}
    (hmethod : method ∈ service.GetDescriptor.methods) :
    (publish services).Publishes method.service method.name service method := by
  refine ⟨{ m_service := service, m_methodMap := methodMap service.GetDescriptor.methods }, ?_,
    rfl, ?_⟩
  · rw [service.GetDescriptor.service_eq method hmethod, find_publish,
      List.find?_key h.service_names hservice]
    rfl
  · rw [find_methodMap]
    exact List.find?_key (h.method_names service hservice) hmethod

/-- Nothing else is found. -/
theorem mem_of_publishes {services : List (Service T)} {service_name method_name : Bytes}
    {service : Service T} {method : MethodDescriptor T}
    (h : (publish services).Publishes service_name method_name service method) :
    service ∈ services ∧ service.GetDescriptor.name = service_name ∧
      method ∈ service.GetDescriptor.methods ∧ method.name = method_name := by
  obtain ⟨it, hit, rfl, hmethod⟩ := h
  rw [find_publish] at hit
  obtain ⟨s, hs, rfl⟩ := Option.map_eq_some_iff.mp hit
  rw [find_methodMap] at hmethod
  have hname := List.find?_some hs
  have hname' := List.find?_some hmethod
  exact ⟨List.mem_of_find?_eq_some hs, (eq_of_beq hname).symm,
    List.mem_of_find?_eq_some hmethod, (eq_of_beq hname').symm⟩

/-! ## What `CallMethod` sends -/

variable {method : MethodDescriptor T} {controller : MprpcController} {request : M} {w : World}
  {out : Return M}

/-- Nothing but the request is sent. -/
theorem exchange_send {output_type : T} {trace : List Event} {clientfd fd : Int} {ip : Bytes}
    {port : UInt16} {send_rpc_str data : Bytes}
    (h : exchange pb output_type controller w trace clientfd ip port send_rpc_str = some out)
    (hmem : .send fd data ∈ out.trace) (htrace : .send fd data ∉ trace) :
    data = send_rpc_str := by
  obtain ⟨done, reason, received, rfl, hdone, -⟩ | ⟨incoming, response, -, -, -, -, rfl⟩ :=
    exchange_cases h
  · have hsent : .send fd data ∈ done := by
      simpa [fail, htrace] using hmem
    have hsent' := hdone.subset hsent
    simp at hsent'
    exact hsent'.2
  · have hsent : fd = clientfd ∧ data = send_rpc_str := by
      simpa [htrace] using hmem
    exact hsent.2

theorem CallMethod_send {fd : Int} {data : Bytes}
    (h : CallMethod pb e method controller request w = some out)
    (hmem : .send fd data ∈ out.trace) : encodeRequest pb e method request = .ok data := by
  obtain ⟨reason, rfl, -⟩ | ⟨send_rpc_str, clientfd, he, -, ⟨reason, -, rfl⟩ | ⟨ip, port, -, hx⟩⟩ :=
    CallMethod_cases h
  · simp [fail] at hmem
  · simp [fail] at hmem
  · rw [he, exchange_send hx hmem (by simp)]

/-! ## Encoding and decoding -/

/-- **`OnMessage` calls what `CallMethod` has encoded.** For a method that is published it calls
the service once, with the descriptor of the method and the request; for a name that is not
published it calls nothing. -/
theorem whole_frame_called (hheader : pb.RpcHeader.Inverts) (hmessage : ∀ t, (pb.message t).Inverts)
    {services : List (Service T)} (hnames : DistinctNames services) (method : MethodDescriptor T)
    (request : M) {args header : Bytes}
    (hargs : (pb.message method.input_type).SerializeToString request = some args)
    (hsize : args.length < 2 ^ 32)
    (hstr : pb.RpcHeader.SerializeToString ⟨method.service, method.name, .ofNat args.length⟩ =
      some header)
    (hoffset : 4 + header.length < 2 ^ 32) :
    ∃ f, encodeRequest pb e method request = .ok f ∧
      (∀ controller w out fd data, CallMethod pb e method controller request w = some out →
        .send fd data ∈ out.trace → data = f) ∧
      ∃ r, (publish services).OnMessage pb e f = .ok r ∧
        (∀ service ∈ services, method ∈ service.GetDescriptor.methods →
          r.call = some ⟨service, method, request⟩) ∧
        ((∀ service ∈ services, service.GetDescriptor.name = method.service →
            ∀ m ∈ service.GetDescriptor.methods, m.name ≠ method.name) → r.call = none) := by
  have hencode : encodeRequest pb e method request =
      .ok (e.store (.ofNat header.length) ++ header ++ args) := by
    simp only [encodeRequest, hargs, hstr]
  have hargsSize : (UInt32.ofNat args.length).toNat = args.length := by
    rw [UInt32.toNat_ofNat']
    exact Nat.mod_eq_of_lt hsize
  obtain ⟨hword, hheaderStr, hwithin, hargsStr⟩ := frame_parts (e := e) hoffset hargsSize rfl
  have hparse := hheader _ _ hstr
  rw [← hheaderStr] at hparse
  obtain ⟨r, hr, -, hcall⟩ := OnMessage_args (p := publish services) hword hparse hwithin
  refine ⟨_, hencode, ?_, r, hr, fun service hservice hmethod => ?_, fun hnone => ?_⟩
  · intro controller w out fd data hout hmem
    have hsent := CallMethod_send hout hmem
    rw [hencode] at hsent
    exact (Except.ok.inj hsent).symm
  · refine (hcall ⟨service, method, request⟩).mpr ⟨publishes_of_mem hnames hservice hmethod, ?_⟩
    rw [hargsStr]
    exact hmessage _ _ _ hargs
  · cases hc : r.call with
    | none => rfl
    | some c =>
      obtain ⟨hpub, -⟩ := (hcall c).mp hc
      obtain ⟨hservice, hname, hmethod, hname'⟩ := mem_of_publishes hpub
      exact absurd hname' (hnone c.service hservice hname c.method hmethod)

theorem whole_frame_called_login :
    ∃ f r, encodeRequest userProtobuf .little Login loginRequest = .ok f ∧
      (publish [UserService]).OnMessage userProtobuf .little f = .ok r ∧
      r.call = some ⟨UserService, Login, loginRequest⟩ := by
  have hnames : DistinctNames [UserService] := ⟨by decide, by decide +kernel⟩
  have hargs : (userProtobuf.message Login.input_type).SerializeToString loginRequest =
      some loginArgs := by decide +kernel
  have hstr : userProtobuf.RpcHeader.SerializeToString
      ⟨Login.service, Login.name, .ofNat loginArgs.length⟩ = some loginHeaderStr := by
    decide +kernel
  obtain ⟨f, hf, -, r, hr, hcall, -⟩ := whole_frame_called (e := .little)
    (fun _ _ h => userProtobuf_lawful.RpcHeader.parse_serialize h)
    (fun t _ _ h => (userProtobuf_lawful.message t).parse_serialize h) hnames Login loginRequest
    hargs (by decide +kernel) hstr (by decide +kernel)
  exact ⟨f, r, hf, hr, hcall UserService (List.mem_singleton_self _) (by decide +kernel)⟩

end CppInOne.Mprpc
