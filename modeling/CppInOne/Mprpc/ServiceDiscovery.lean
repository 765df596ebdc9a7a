import CppInOne.Mprpc.MprpcChannel
import CppInOne.Mprpc.RpcProvider

/-!
# Publishing and finding a service

`RpcProvider::Run` stores the text `ip:port` under the path of each method in zookeeper, and
`MprpcChannel::CallMethod` gets it back with `ZkClient::GetData`. `GetData` turns its array into
a `std::string` although `zoo_get` writes no terminator into it, so the text goes on with what
happens to lie behind the address.

## Main definitions

- `Zookeeper` — the functions of the client library
- `Create`, `GetData`, `createAll` — what the two sides do with them
- `Discovers` — a client finds the published address
- `Harmless` — what the array may hold behind the address

## Main results

- `discovers_iff_harmless` — a client finds the address if and only if the array is harmless
-/

namespace CppInOne.Mprpc
open ByteString

/-! ## The client library -/

def ZOK : Int := 0

def ZNONODE : Int := -101

def ZOO_EPHEMERAL : Int := 1

/-- The functions of the library, `Z` for the nodes on the server. -/
structure Zookeeper (Z : Type*) where
  zoo_exists : Z → Bytes → Int
  zoo_create : Z → Bytes → Bytes → Int → Z × Int
  /-- What is in the array afterwards, and the result. -/
  zoo_get : Z → Bytes → Bytes → Bytes × Int

/-- What the library promises: `zoo_create` stores the bytes it is given in a new node, and
`zoo_get` copies them, as far as they fit, to the front of the array. -/
structure Zookeeper.Documented {Z : Type*} (zk : Zookeeper Z) (content : Z → Bytes → Option Bytes) :
    Prop where
  exists_iff : ∀ z path, zk.zoo_exists z path = ZNONODE ↔ content z path = none
  create : ∀ z path data state, (zk.zoo_create z path data state).2 = ZOK →
    content (zk.zoo_create z path data state).1 = Function.update (content z) path (some data)
  get : ∀ z path data buffer, content z path = some data →
    zk.zoo_get z path buffer = (copy data buffer buffer.length, ZOK)

variable {Z : Type*} {T : Type}

/-! ## The functions of the source -/

/-- `s.c_str()` for a function that takes a text. -/
def c_str (s : Bytes) : Bytes := s.takeWhile (· ≠ 0)

/-- `ZkClient::Create`; `none` when it ends the process. -/
def Create (zk : Zookeeper Z) (z : Z) (path data : Bytes) (state : Int) : Option Z :=
  if zk.zoo_exists z path = ZNONODE then
    let (z, flag) := zk.zoo_create z path data state
    if flag = ZOK then some z else none
  else some z

/-- `sizeof buffer` in `GetData` -/
def sizeofBuffer : Nat := 64

/-- `ZkClient::GetData` with what its array holds at first; `none` if the text of the result does
not end inside the array. -/
def GetData (zk : Zookeeper Z) (z : Z) (path buffer : Bytes) : Option Bytes :=
  let (buffer, flag) := zk.zoo_get z path buffer
  if flag ≠ ZOK then some [] else cstring buffer

/-- The arguments of a `Create`; the data is missing if it does not fit into the array in which it
is put together. -/
structure Creation where
  path : Bytes
  data : Option Bytes
  state : Int
  deriving DecidableEq, Repr

/-- `sizeof method_path_data` -/
def sizeofMethodPathData : Nat := 128

/-- What is stored for a method. -/
def methodData (ip : Bytes) (port : UInt16) : Option Bytes :=
  (sprintf sizeofMethodPathData (ip ++ ascii ":" ++ decimal port.toNat)).map c_str

/-- The calls of `Create` in `RpcProvider::Run`. -/
def creations (p : RpcProvider T) (ip : Bytes) (port : UInt16) : List Creation :=
  p.m_serviceMap.entries.flatMap fun sp =>
    let service_path := ascii "/" ++ sp.1
    { path := c_str service_path, data := some [], state := 0 } ::
      sp.2.m_methodMap.entries.map fun mp =>
        let method_path := service_path ++ ascii "/" ++ mp.1
        { path := c_str method_path, data := methodData ip port, state := ZOO_EPHEMERAL }

def createAll (zk : Zookeeper Z) (z : Z) (cs : List Creation) : Option Z :=
  cs.foldlM (fun z c => c.data.bind fun data => Create zk z c.path data c.state) z

/-- The call of `Create` for a method. -/
def methodCreation (method : MethodDescriptor T) (ip : Bytes) (port : UInt16) : Creation where
  path := c_str (MprpcChannel.methodPath method)
  data := methodData ip port
  state := ZOO_EPHEMERAL

/-! ## What a client gets -/

/-- A dotted address: at most fifteen digits and dots. -/
def IsDotted (ip : Bytes) : Prop := ip.length ≤ 15 ∧ ∀ c ∈ ip, isDigit c = true ∨ c = 0x2e

instance (ip : Bytes) : Decidable (IsDotted ip) := inferInstanceAs (Decidable (_ ∧ _))

/-- The text that `CallMethod` passes to `atoi`. -/
def portText (host_data : Bytes) (idx : Nat) : Bytes :=
  (host_data.drop (idx + 1)).take (host_data.length - idx)

/-- The text that a client gets ends inside the array, its number fits an `int`, and `CallMethod`
takes this address out of it. -/
def Discovers (zk : Zookeeper Z) (z : Z) (method : MethodDescriptor T) (buffer ip : Bytes)
    (port : UInt16) : Prop :=
  ∃ host_data idx, GetData zk z (c_str (MprpcChannel.methodPath method)) buffer = some host_data ∧
    find host_data 0x3a = some idx ∧ atoi (portText host_data idx) < 2 ^ 31 ∧
    MprpcChannel.address (MprpcChannel.methodPath method) host_data = .ok (ip, port)

/-- Behind the address comes a terminator, and the digits in front of it, if any, lead to the same
port again. -/
def Harmless (tail : Bytes) (port : UInt16) : Prop :=
  let ds := tail.takeWhile isDigit
  let number := port.toNat * 10 ^ ds.length + digitsValue ds
  0 ∈ tail ∧ number < 2 ^ 31 ∧ number % 2 ^ 16 = port.toNat

instance (tail : Bytes) (port : UInt16) : Decidable (Harmless tail port) :=
  inferInstanceAs (Decidable (_ ∧ _ ∧ _))

/-- Four numbers below 256 with dots between them. -/
theorem isDotted_quad {a b c d : Nat} (ha : a < 256) (hb : b < 256) (hc : c < 256) (hd : d < 256) :
    IsDotted (decimal a ++ ascii "." ++ decimal b ++ ascii "." ++ decimal c ++ ascii "." ++
      decimal d) := by
  have hlength : ∀ {k : Nat}, k < 256 → (decimal k).length ≤ 3 :=
    fun hk => decimal_length_le (by omega) (by omega)
  have hdigit : ∀ {k : Nat} {x : UInt8}, x ∈ decimal k → isDigit x = true ∨ x = 0x2e :=
    fun hx => Or.inl (isDigit_of_mem_decimal hx)
  have hdot : ∀ {x : UInt8}, x ∈ ascii "." → isDigit x = true ∨ x = 0x2e :=
    fun hx => Or.inr (List.mem_singleton.mp hx)
  constructor
  · have hone : (ascii ".").length = 1 := rfl
    have ha' := hlength ha
    have hb' := hlength hb
    have hc' := hlength hc
    have hd' := hlength hd
    simp only [List.length_append, hone]
    omega
  · intro x hx
    simp only [List.mem_append] at hx
    obtain (((((hx | hx) | hx) | hx) | hx) | hx) | hx := hx
    · exact hdigit hx
    · exact hdot hx
    · exact hdigit hx
    · exact hdot hx
    · exact hdigit hx
    · exact hdot hx
    · exact hdigit hx

/-- `Run` creates a node for every method that is published. -/
theorem methodCreation_mem {p : RpcProvider T} {sp : Bytes × ServiceInfo T}
    {mp : Bytes × MethodDescriptor T} (hsp : sp ∈ p.m_serviceMap.entries)
    (hmp : mp ∈ sp.2.m_methodMap.entries) {method : MethodDescriptor T}
    (hservice : method.service = sp.1) (hname : method.name = mp.1) (ip : Bytes) (port : UInt16) :
    methodCreation method ip port ∈ creations p ip port := by
  refine List.mem_flatMap.mpr ⟨sp, hsp, List.mem_cons_of_mem _ (List.mem_map.mpr ⟨mp, hmp, ?_⟩)⟩
  rw [methodCreation, MprpcChannel.methodPath, hservice, hname]

/-! ## Nodes -/

section Nodes

variable {zk : Zookeeper Z} {content : Z → Bytes → Option Bytes}

theorem Create_new (hzk : zk.Documented content) {z z' : Z} {path data : Bytes} {state : Int}
    (hnew : content z path = none) (hc : Create zk z path data state = some z') :
    content z' = Function.update (content z) path (some data) := by
  rw [Create, if_pos ((hzk.exists_iff z path).mpr hnew)] at hc
  obtain ⟨hok, hc⟩ := Option.ite_none_right_eq_some.mp hc
  cases hc
  exact hzk.create z path data state hok

/-- A node that is there stays as it is. -/
theorem Create_keep (hzk : zk.Documented content) {z z' : Z} {path path' data data' : Bytes}
    {state : Int} (hold : content z path' = some data')
    (hc : Create zk z path data state = some z') : content z' path' = some data' := by
  by_cases hnew : content z path = none
  · have hne : path' ≠ path := by
      rintro rfl
      rw [hnew] at hold
      cases hold
    rw [Create_new hzk hnew hc, Function.update_of_ne hne]
    exact hold
  · rw [Create, if_neg (mt (hzk.exists_iff z path).mp hnew)] at hc
    cases hc
    exact hold

theorem createAll_keep (hzk : zk.Documented content) {z z' : Z} {cs : List Creation}
    {path data : Bytes} (hold : content z path = some data)
    (hcs : createAll zk z cs = some z') : content z' path = some data := by
  induction cs generalizing z with
  | nil =>
    cases hcs
    exact hold
  | cons c cs ih =>
    rw [createAll, List.foldlM_cons] at hcs
    obtain ⟨z₁, hz₁, hrest⟩ := Option.bind_eq_some_iff.mp hcs
    obtain ⟨data', _, hcreate⟩ := Option.bind_eq_some_iff.mp hz₁
    exact ih (Create_keep hzk hold hcreate) hrest

/-- The node of a method, from its `Create` on. -/
theorem createAll_content (hzk : zk.Documented content) {z z₁ z' : Z} {pre post : List Creation}
    {c : Creation} (hpre : createAll zk z pre = some z₁) (hnew : content z₁ c.path = none)
    (hall : createAll zk z (pre ++ c :: post) = some z') : content z' c.path = c.data := by
  rw [createAll, List.foldlM_append] at hall
  obtain ⟨z₁', hpre', hrest⟩ := Option.bind_eq_some_iff.mp hall
  have heq : z₁' = z₁ := Option.some.inj (hpre'.symm.trans hpre)
  subst heq
  rw [List.foldlM_cons] at hrest
  obtain ⟨z₂, hz₂, hpost⟩ := Option.bind_eq_some_iff.mp hrest
  obtain ⟨data, hdata, hcreate⟩ := Option.bind_eq_some_iff.mp hz₂
  rw [hdata]
  refine createAll_keep hzk ?_ hpost
  rw [Create_new hzk hnew hcreate, Function.update_self]

end Nodes

/-! ## Texts -/

/-- `ip:port` -/
def addressText (ip : Bytes) (port : UInt16) : Bytes :=
  ip ++ 0x3a :: decimal port.toNat

theorem IsDotted.not_mem {ip : Bytes} (hip : IsDotted ip) {c : UInt8} (hdigit : isDigit c = false)
    (hdot : c ≠ 0x2e) : c ∉ ip := by
  intro hc
  obtain h | h := hip.2 c hc
  · rw [hdigit] at h
    cases h
  · exact hdot h

theorem decimal_port_length (port : UInt16) : (decimal port.toNat).length ≤ 5 := by
  have hport : port.toNat < 2 ^ 16 := port.toNat_lt
  exact decimal_length_le (by omega) (by omega)

theorem not_mem_addressText {ip : Bytes} (hip : IsDotted ip) (port : UInt16) :
    0 ∉ addressText ip port := by
  intro hmem
  obtain hmem | hmem := List.mem_append.mp hmem
  · exact hip.not_mem rfl (by decide) hmem
  · obtain hcolon | hmem := List.mem_cons.mp hmem
    · exact absurd hcolon (by decide)
    · have hdigit := isDigit_of_mem_decimal hmem
      cases hdigit

theorem addressText_length {ip : Bytes} (hip : IsDotted ip) (port : UInt16) :
    (addressText ip port).length ≤ 21 := by
  have hlength := hip.1
  have hport := decimal_port_length port
  rw [addressText, List.length_append, List.length_cons]
  omega

/-- The address fits into the array in which it is put together. -/
theorem methodData_eq {ip : Bytes} (hip : IsDotted ip) (port : UInt16) :
    methodData ip port = some (addressText ip port) := by
  have htext : ip ++ ascii ":" ++ decimal port.toNat = addressText ip port := by
    rw [List.append_assoc]
    rfl
  have hlength := addressText_length hip port
  have hfull : c_str (addressText ip port) = addressText ip port :=
    takeWhile_eq_self (not_mem_addressText hip port)
  rw [methodData, htext, sprintf, if_pos, Option.map_some, hfull]
  show _ < 128
  omega

/-- What `GetData` makes of an array into which the address was copied. -/
theorem cstring_address {ip : Bytes} (hip : IsDotted ip) (port : UInt16) (tail : Bytes) :
    cstring (addressText ip port ++ tail) =
      if 0 ∈ tail then some (addressText ip port ++ tail.takeWhile (· ≠ 0)) else none := by
  rw [cstring_append (not_mem_addressText hip port), cstring]
  split
  · rfl
  · rfl

/-- The digits of a text are not affected by what comes behind its end. -/
theorem takeWhile_isDigit (tail : Bytes) :
    (tail.takeWhile (· ≠ 0)).takeWhile isDigit = tail.takeWhile isDigit := by
  induction tail with
  | nil => rfl
  | cons c tail ih =>
    by_cases hzero : c = 0
    · subst hzero
      rfl
    · rw [List.takeWhile_cons_of_pos (by simpa using hzero), List.takeWhile_cons,
        List.takeWhile_cons, ih]

theorem find_address {ip : Bytes} (hip : IsDotted ip) (port : UInt16) (rest : Bytes) :
    find (addressText ip port ++ rest) 0x3a = some ip.length := by
  rw [addressText, List.append_assoc, List.cons_append]
  exact find_append_cons (hip.not_mem rfl (by decide)) _

theorem portText_address (ip : Bytes) (port : UInt16) (rest : Bytes) :
    portText (addressText ip port ++ rest) ip.length = decimal port.toNat ++ rest := by
  have hsplit : addressText ip port ++ rest = (ip ++ [0x3a]) ++ (decimal port.toNat ++ rest) := by
    simp [addressText]
  rw [portText, hsplit, List.drop_left' (by simp)]
  apply List.take_of_length_le
  simp

/-- The number of a port text that fits into a `uint16_t`. -/
theorem ofInt_eq_iff (number : Nat) (port : UInt16) :
    UInt16.ofInt (number : Int) = port ↔ number % 2 ^ 16 = port.toNat := by
  have hnumber : (UInt16.ofInt (number : Int)).toNat = number % 2 ^ 16 := by
    have hmod : ((number : Int) % 2 ^ 16).toNat = number % 2 ^ 16 := by omega
    rw [UInt16.ofInt, hmod, UInt16.toNat_ofNat', Nat.mod_mod]
  rw [← hnumber, UInt16.toNat_inj]

/-- What `CallMethod` takes out of an address with something behind it. -/
theorem address_eq {ip : Bytes} (hip : IsDotted ip) (port : UInt16) (path rest : Bytes) :
    MprpcChannel.address path (addressText ip port ++ rest) =
      .ok (ip, .ofInt (atoi (decimal port.toNat ++ rest))) := by
  have hne : addressText ip port ++ rest ≠ [] := by simp [addressText]
  have hip' : (addressText ip port ++ rest).take ip.length = ip := by
    rw [addressText, List.append_assoc]
    exact List.take_left' rfl
  rw [MprpcChannel.address, if_neg hne, find_address hip]
  simp only [hip']
  rw [← portText_address ip port rest, portText]

/-! ## The condition -/

/-- A node that holds the address, read into this array. -/
theorem discovers_of_content {zk : Zookeeper Z} {content : Z → Bytes → Option Bytes}
    (hzk : zk.Documented content) {z : Z} {method : MethodDescriptor T} {ip : Bytes} {port : UInt16}
    (hip : IsDotted ip)
    (hz : content z (c_str (MprpcChannel.methodPath method)) = some (addressText ip port))
    {buffer : Bytes} (hbuffer : buffer.length = sizeofBuffer) :
    Discovers zk z method buffer ip port ↔
      Harmless (buffer.drop (addressText ip port).length) port := by
  have hfits := addressText_length hip port
  have hsize : buffer.length = 64 := hbuffer
  have hget : GetData zk z (c_str (MprpcChannel.methodPath method)) buffer =
      cstring (addressText ip port ++ buffer.drop (addressText ip port).length) := by
    rw [GetData, hzk.get z _ _ buffer hz, copy, List.take_of_length_le (by omega),
      Nat.min_eq_right (by omega)]
    rfl
  generalize buffer.drop (addressText ip port).length = tail at hget ⊢
  rw [cstring_address hip] at hget
  have hnumber : atoi (decimal port.toNat ++ tail.takeWhile (· ≠ 0)) =
      ((port.toNat * 10 ^ (tail.takeWhile isDigit).length +
        digitsValue (tail.takeWhile isDigit) : Nat) : Int) := by
    rw [atoi_decimal_append, takeWhile_isDigit]
    push_cast
    rfl
  constructor
  · rintro ⟨host_data, idx, hhost, hidx, hint, haddress⟩
    rw [hget] at hhost
    obtain ⟨hzero, hhost⟩ := Option.ite_none_right_eq_some.mp hhost
    obtain rfl := Option.some.inj hhost
    rw [find_address hip] at hidx
    obtain rfl := Option.some.inj hidx
    rw [portText_address, hnumber] at hint
    rw [address_eq hip, hnumber, Except.ok.injEq, Prod.mk.injEq, ofInt_eq_iff] at haddress
    exact ⟨hzero, by omega, haddress.2⟩
  · rintro ⟨hzero, hint, hport⟩
    rw [if_pos hzero] at hget
    refine ⟨_, ip.length, hget, find_address hip port _, ?_, ?_⟩
    · rw [portText_address, hnumber]
      omega
    · rw [address_eq hip, hnumber, (ofInt_eq_iff _ port).mpr hport]

/-- **A client finds the published address if and only if the array of `GetData` happens to hold
a terminator behind it, with no digits in between that change the port.** The address is
published for the method by `Run` in a node that did not exist, and is still there when
the client looks for it. -/
theorem discovers_iff_harmless (zk : Zookeeper Z) (content : Z → Bytes → Option Bytes)
    (hzk : zk.Documented content) (p : RpcProvider T) (ip : Bytes) (hip : IsDotted ip)
    (port : UInt16) (method : MethodDescriptor T) (pre post : List Creation)
    (hcreations : creations p ip port = pre ++ methodCreation method ip port :: post)
    (z z₁ z' z'' : Z) (hpre : createAll zk z pre = some z₁)
    (hnew : content z₁ (methodCreation method ip port).path = none)
    (hrun : createAll zk z (creations p ip port) = some z')
    (hkeep : content z'' (methodCreation method ip port).path =
      content z' (methodCreation method ip port).path)
    (buffer : Bytes) (hbuffer : buffer.length = sizeofBuffer) :
    Discovers zk z'' method buffer ip port ↔
      Harmless (buffer.drop (addressText ip port).length) port := by
  rw [hcreations] at hrun
  have hz := createAll_content hzk hpre hnew hrun
  rw [← hkeep] at hz
  exact discovers_of_content hzk hip (hz.trans (methodData_eq hip port)) hbuffer

/-! ## A server in memory -/

/-- The nodes as a function. -/
def inMemory : Zookeeper (Bytes → Option Bytes) where
  zoo_exists z path := if z path = none then ZNONODE else ZOK
  zoo_create z path data _ :=
    -- `ZNODEEXISTS`
    if z path = none then (Function.update z path (some data), ZOK) else (z, -110)
  zoo_get z path buffer :=
    match z path with
    | some data => (copy data buffer buffer.length, ZOK)
    | none => (buffer, ZNONODE)

theorem documented_inMemory : inMemory.Documented fun z path => z path where
  exists_iff z path := by
    simp only [inMemory]
    split
    · next hnone => exact iff_of_true rfl hnone
    · next hsome => exact iff_of_false (by decide) hsome
  create z path data state hok := by
    simp only [inMemory] at hok ⊢
    split at hok
    · next hnone => rw [if_pos hnone]
    · cases hok
  get z path data buffer hdata := by
    simp only [inMemory, hdata]

/-- The provider of `userservice.cc`. -/
def userProvider : RpcProvider MessageType := .publish [UserService]

def localhost : Bytes := ascii "127.0.0.1"

/-- An array that was all zero is harmless. -/
theorem discovers_iff_harmless_zero :
    ∃ z', createAll inMemory (fun _ => none) (creations userProvider localhost 8000) = some z' ∧
      Discovers inMemory z' Login (List.replicate 64 0) localhost 8000 := by
  refine ⟨_, rfl, (discovers_iff_harmless inMemory _ documented_inMemory userProvider localhost
    (by decide +kernel) 8000 Login ((creations userProvider localhost 8000).take 2) [] rfl
    (fun _ => none) _ _ _ rfl ?_ rfl rfl (List.replicate 64 0) rfl).mpr ?_⟩
  · decide
  · decide

/-- What the array of `GetData` may hold: the digit 9 where the address ends. -/
def leftover : Bytes := List.replicate 14 0 ++ 0x39 :: List.replicate 49 0

/-- The client connects to the port 14473 instead of 8000. -/
theorem discovers_fails :
    ∃ z', createAll inMemory (fun _ => none) (creations userProvider localhost 8000) = some z' ∧
      GetData inMemory z' (c_str (MprpcChannel.methodPath Login)) leftover =
        some (ascii "127.0.0.1:80009") ∧
      MprpcChannel.address (MprpcChannel.methodPath Login) (ascii "127.0.0.1:80009") =
        .ok (localhost, 14473) ∧
      ¬ Discovers inMemory z' Login leftover localhost 8000 := by
  have haddress : MprpcChannel.address (MprpcChannel.methodPath Login)
      (ascii "127.0.0.1:80009") = .ok (localhost, 14473) := rfl
  refine ⟨_, rfl, by decide, haddress, ?_⟩
  rintro ⟨host_data, idx, hget, _, _, hfound⟩
  have hhost : some (ascii "127.0.0.1:80009") = some host_data := Eq.trans (by decide) hget
  rw [← Option.some.inj hhost, haddress] at hfound
  exact absurd (congrArg Prod.snd (Except.ok.inj hfound)) (by decide)

end CppInOne.Mprpc
