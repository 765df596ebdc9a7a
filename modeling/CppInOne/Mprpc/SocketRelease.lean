import CppInOne.Lib.Trace
import CppInOne.Mprpc.Reply

/-!
# The socket of a call

`CallMethod` has ten exits, and each has its own copy of the clean-up. This file follows the
socket from its creation to every one of them, and counts the calls of `SetFailed`.

## Main definitions

- `Releases` — the socket was closed once, and not used after that
- `AllSucceed` — no step of the call fails

## Main results

- `releases_iff_colon` — the socket is released unless the znode data holds no address
-/

namespace CppInOne.Mprpc.MprpcChannel
open ByteString Trace

variable {T M : Type} {pb : Protobuf T M} {e : Endian} {method : MethodDescriptor T}
  {controller : MprpcController} {request : M} {w : World} {out : Return M}

/-! ## What a trace shows -/

/-- The descriptor that is passed to a system call. -/
def Event.fd? : Event → Option Int
  | .connect clientfd _ _ => some clientfd
  | .send clientfd _ => some clientfd
  | .recv clientfd _ => some clientfd
  | .close clientfd => some clientfd
  | _ => none

/-- A descriptor is used after its `socket` and before its `close` only. -/
def UsedOpen (pre : List Event) (e : Event) : Prop :=
  ∀ fd, e.fd? = some fd → .socket fd ∈ pre ∧ .close fd ∉ pre

/-- Every socket was closed exactly once, and nothing was done with it before it was created or
after it was closed. -/
structure Releases (trace : List Event) : Prop where
  usedOpen : Justified UsedOpen trace
  closed : ∀ fd, .socket fd ∈ trace → trace.count (.close fd) = 1

def Event.isSetFailed : Event → Bool
  | .SetFailed _ => true
  | _ => false

/-- How often `controller->SetFailed` was called. -/
def setFailed (trace : List Event) : Nat := trace.countP Event.isSetFailed

/-! ## What a call depends on -/

/-- The request and its header can be serialized. -/
def Serializes (pb : Protobuf T M) (method : MethodDescriptor T) (request : M) : Prop :=
  ∃ args_str, (pb.message method.input_type).SerializeToString request = some args_str ∧
    pb.RpcHeader.SerializeToString ⟨method.service, method.name, .ofNat args_str.length⟩ ≠ none

/-- Every step of the call succeeds, the parse of the response included. -/
def AllSucceed (pb : Protobuf T M) (e : Endian) (method : MethodDescriptor T) (request : M)
    (w : World) : Prop :=
  ∃ incoming, Completes pb e method request w incoming ∧
    (pb.message method.output_type).ParseFromString (recv sizeofRecvBuf incoming) ≠ none

theorem encodeRequest_ok_iff :
    (∃ send_rpc_str, encodeRequest pb e method request = .ok send_rpc_str) ↔
      Serializes pb method request := by
  unfold encodeRequest Serializes
  cases hargs : (pb.message method.input_type).SerializeToString request with
  | none => simp
  | some args_str =>
    simp only [Option.some.injEq, exists_eq_left']
    split
    · next hheader => simp [hheader]
    · next header hheader => simp [hheader]

/-- An address needs a colon, and nothing else. -/
theorem address_ok_iff (path : Bytes) {host_data : Bytes} :
    (∃ ip_port, address path host_data = .ok ip_port) ↔ 0x3a ∈ host_data := by
  have hfind : find host_data 0x3a = none ↔ 0x3a ∉ host_data := by
    rw [find, List.findIdx?_eq_none_iff]
    constructor
    · intro h hmem
      simpa using h _ hmem
    · intro h x hx
      rw [beq_eq_false_iff_ne]
      rintro rfl
      exact h hx
  unfold address
  split
  · next hnil => simp [hnil]
  · split
    · next hnone => simpa using hfind.mp hnone
    · next idx hidx =>
      have hmem : 0x3a ∈ host_data := by
        by_contra hmem
        rw [hfind.mpr hmem] at hidx
        cases hidx
      simp [hmem]

/-- What a call leaves behind when it returns: a released socket, and one report if a step has
failed. -/
structure CleansUp (pb : Protobuf T M) (e : Endian) (method : MethodDescriptor T) (request : M)
    (w : World) (trace : List Event) : Prop where
  releases : Releases trace
  silent : AllSucceed pb e method request w → setFailed trace = 0
  reported : ¬ AllSucceed pb e method request w → setFailed trace = 1

/-! ## The exits -/

section Exits

variable {clientfd : Int} (path : Bytes) {reason ip : Bytes} {port : UInt16}
  {data received : Bytes} {done : List Event}

theorem setFailed_of_no_report {trace : List Event} (h : ∀ e ∈ trace, e.isSetFailed = false) :
    setFailed trace = 0 := by
  rw [setFailed, List.countP_eq_zero]
  intro e he
  simp [h e he]

/-- An exit before `socket`. -/
theorem releases_fail_nil : Releases [.SetFailed reason] where
  usedOpen := justified_of_free fun e he pre fd hfd => by
    rw [List.mem_singleton.mp he] at hfd
    cases hfd
  closed fd hfd := by simp at hfd

variable {path} in
/-- The exits between `socket` and `connect` leave the socket open. -/
theorem not_releases_without_address :
    ¬ Releases [.socket clientfd, .GetData path, .SetFailed reason] := by
  intro h
  have hclosed := h.closed clientfd (by simp)
  simp at hclosed

/-- What the exchange does with the open socket. -/
theorem usedOpen_exchange (hdone : done <+: [.connect clientfd ip port, .send clientfd data,
    .recv clientfd received]) :
    Justified UsedOpen ([.socket clientfd, .GetData path] ++ done) := by
  have hstart : Justified UsedOpen [.socket clientfd, .GetData path] :=
    justified_of_free fun e he pre fd hfd => by
      obtain rfl | rfl : e = .socket clientfd ∨ e = .GetData path := by simpa using he
      · cases hfd
      · cases hfd
  refine hstart.append fun pre e post heq fd hfd => ?_
  have hsub : ∀ x ∈ pre ++ e :: post, x.fd? = some clientfd ∧ x ≠ .close fd := by
    intro x hx
    rw [← heq] at hx
    have hx' := hdone.subset hx
    simp only [List.mem_cons, List.not_mem_nil, or_false] at hx'
    obtain rfl | rfl | rfl := hx' <;> exact ⟨rfl, by simp⟩
  have he : fd = clientfd := by
    have := (hsub e (by simp)).1
    rw [hfd] at this
    exact Option.some.inj this
  subst he
  refine ⟨by simp, ?_⟩
  simp only [List.mem_append, not_or]
  exact ⟨by simp, fun hmem => (hsub _ (List.mem_append_left _ hmem)).2 rfl⟩

/-- An exit of the exchange that reports a failure or none: the events before the `close` of its
end are those of the open socket. -/
theorem releases_exchange (hdone : done <+: [.connect clientfd ip port, .send clientfd data,
    .recv clientfd received]) {report : List Event}
    (hreport : ∀ e ∈ report, ∃ r, e = .SetFailed r) :
    Releases ([.socket clientfd, .GetData path] ++ done ++ report ++ [.close clientfd]) := by
  have hopen : .close clientfd ∉ [.socket clientfd, .GetData path] ++ done ++ report := by
    simp only [List.mem_append, not_or]
    refine ⟨⟨by simp, fun hmem => ?_⟩, fun hmem => ?_⟩
    · have := hdone.subset hmem
      simp at this
    · obtain ⟨r, hr⟩ := hreport _ hmem
      cases hr
  constructor
  · refine ((usedOpen_exchange path hdone).append_free fun e he pre fd hfd => ?_).concat ?_
    · obtain ⟨r, rfl⟩ := hreport e he
      cases hfd
    · intro fd hfd
      cases hfd
      exact ⟨by simp, hopen⟩
  · intro fd hfd
    have heq : fd = clientfd := by
      simp only [List.mem_append, List.mem_cons, List.not_mem_nil, or_false] at hfd
      obtain ((hfd | hfd) | hfd) | hfd := hfd
      · simpa using hfd
      · have := hdone.subset hfd
        simp at this
      · obtain ⟨r, hr⟩ := hreport _ hfd
        cases hr
      · cases hfd
    subst heq
    rw [List.count_append, List.count_eq_zero_of_not_mem hopen]
    simp

end Exits

/-! ## Every call -/

/-- `SetFailed` is called once if a step fails, and never otherwise, on every exit. -/
theorem CallMethod_reports (h : CallMethod pb e method controller request w = some out) :
    (AllSucceed pb e method request w → setFailed out.trace = 0) ∧
      (¬ AllSucceed pb e method request w → setFailed out.trace = 1) := by
  obtain ⟨reason, rfl, hfail⟩ | ⟨send_rpc_str, clientfd, he, hs, hrest⟩ := CallMethod_cases h
  · refine ⟨fun hall => ?_, fun _ => rfl⟩
    obtain ⟨incoming, hcompletes, -⟩ := hall
    obtain ⟨send_rpc_str, he⟩ := hcompletes.encoded
    obtain ⟨clientfd, hs⟩ := hcompletes.created
    exact absurd hs (hfail send_rpc_str clientfd he)
  · obtain ⟨reason, ha, rfl⟩ | ⟨ip, port, ha, hx⟩ := hrest
    · refine ⟨fun hall => ?_, fun _ => rfl⟩
      obtain ⟨incoming, hcompletes, -⟩ := hall
      obtain ⟨ip_port, ha'⟩ := hcompletes.found
      rw [ha] at ha'
      cases ha'
    · obtain ⟨done, reason, data, rfl, hdone, hfail⟩ |
          ⟨incoming, response, hconnect, hsend, hrecv, hparse, rfl⟩ := exchange_cases hx
      · refine ⟨fun hall => ?_, fun _ => ?_⟩
        · obtain ⟨incoming, hcompletes, hparse⟩ := hall
          exact absurd (hfail incoming hcompletes.connected hcompletes.sent hcompletes.received)
            hparse
        · have hnone : setFailed done = 0 := by
            apply setFailed_of_no_report
            intro x hx'
            have hmem := hdone.subset hx'
            simp only [List.mem_cons, List.not_mem_nil, or_false] at hmem
            obtain rfl | rfl | rfl := hmem <;> rfl
          rw [setFailed, fail, List.countP_append, List.countP_append, ← setFailed, ← setFailed,
            hnone]
          rfl
      · refine ⟨fun _ => rfl, fun hall => absurd ?_ hall⟩
        exact ⟨incoming, ⟨⟨_, he⟩, ⟨_, hs⟩, ⟨_, ha⟩, hconnect, hsend, hrecv⟩, by simp [hparse]⟩

/-- **A call cleans up exactly when it has found an address or has not created a socket.** The two
exits between `socket` and `connect` lack the `close` that all later ones have. -/
theorem releases_iff_colon (h : CallMethod pb e method controller request w = some out) :
    CleansUp pb e method request w out.trace ↔
      (Serializes pb method request → (∃ clientfd, w.socket = .ok clientfd) →
        0x3a ∈ w.GetData) := by
  obtain ⟨hsilent, hreported⟩ := CallMethod_reports h
  have hreduce : CleansUp pb e method request w out.trace ↔ Releases out.trace :=
    ⟨CleansUp.releases, fun hreleases => ⟨hreleases, hsilent, hreported⟩⟩
  rw [hreduce]
  obtain ⟨reason, rfl, hfail⟩ | ⟨send_rpc_str, clientfd, he, hs, hrest⟩ := CallMethod_cases h
  · refine iff_of_true releases_fail_nil fun hser hsocket => ?_
    obtain ⟨send_rpc_str, he⟩ := (encodeRequest_ok_iff (e := e)).mpr hser
    obtain ⟨clientfd, hs⟩ := hsocket
    exact absurd hs (hfail send_rpc_str clientfd he)
  · have hser : Serializes pb method request := encodeRequest_ok_iff.mp ⟨send_rpc_str, he⟩
    obtain ⟨reason, ha, rfl⟩ | ⟨ip, port, ha, hx⟩ := hrest
    · refine iff_of_false not_releases_without_address fun hcolon => ?_
      obtain ⟨ip_port, ha'⟩ := (address_ok_iff (methodPath method)).mpr
        (hcolon hser ⟨clientfd, hs⟩)
      rw [ha] at ha'
      cases ha'
    · refine iff_of_true ?_ fun _ _ => (address_ok_iff _).mp ⟨(ip, port), ha⟩
      obtain ⟨done, reason, data, rfl, hdone, -⟩ | ⟨incoming, response, -, -, -, -, rfl⟩ :=
        exchange_cases hx
      · have hreport : ∀ x ∈ [Event.SetFailed reason], ∃ r, x = .SetFailed r := by simp
        simpa [fail] using releases_exchange (methodPath method) hdone hreport
      · have hall : ∀ x ∈ ([] : List Event), ∃ r, x = .SetFailed r := by simp
        exact releases_exchange (methodPath method) List.prefix_rfl hall

/-! ## A method that is not published -/

/-- The surroundings of a login for which zookeeper has no node. -/
def absentWorld : World := { loginWorld [loginAnswer] with GetData := [] }

/-- The state in which a login without a node ends. -/
def absentReturn : Return Message :=
  fail .create [.socket 3, .GetData (methodPath Login)]
    (methodPath Login ++ ascii " is not exist!") []

theorem CallMethod_absent :
    CallMethod userProtobuf .little Login .create loginRequest absentWorld =
      some absentReturn := by
  decide +kernel

/-- The socket 3 is not closed. -/
theorem absent_leaks :
    CallMethod userProtobuf .little Login .create loginRequest absentWorld = some absentReturn ∧
      ¬ CleansUp userProtobuf .little Login loginRequest absentWorld absentReturn.trace :=
  ⟨CallMethod_absent, fun h => not_releases_without_address h.releases⟩

theorem releases_iff_colon_absent :
    CleansUp userProtobuf .little Login loginRequest absentWorld absentReturn.trace ↔
      (Serializes userProtobuf Login loginRequest → (∃ fd, absentWorld.socket = .ok fd) →
        0x3a ∈ absentWorld.GetData) :=
  releases_iff_colon CallMethod_absent

end CppInOne.Mprpc.MprpcChannel
