import Mathlib.Algebra.Group.Nat.Defs
import Mathlib.Data.List.DropRight
import CppInOne.Mprpc.ServiceDiscovery

/-!
# What a provider publishes

The paths under which `RpcProvider::Run` publishes the methods of a process, and the list of the
nodes that it creates.

## Main definitions

- `ProperName`, `parent` — the names in a path, and what is in front of the last one
- `Offer` — what one provider process publishes, and its address
-/

namespace CppInOne.Mprpc
open ByteString

variable {T : Type}

/-! ## Names and paths -/

def isIdentifier (c : UInt8) : Bool :=
  isDigit c || (0x41 ≤ c && c ≤ 0x5a) || (0x61 ≤ c && c ≤ 0x7a) || c == 0x5f

/-- A name of a service or a method is an identifier, of less than 64 KiB. -/
def ProperName (name : Bytes) : Prop :=
  name ≠ [] ∧ name.length < 2 ^ 16 ∧ name.all isIdentifier = true

instance (name : Bytes) : Decidable (ProperName name) := inferInstanceAs (Decidable (_ ∧ _ ∧ _))

theorem ProperName.slash_notMem {name : Bytes} (h : ProperName name) : 0x2f ∉ name :=
  fun hmem => absurd (List.all_eq_true.mp h.2.2 _ hmem) (by decide)

theorem ProperName.zero_notMem {name : Bytes} (h : ProperName name) : 0 ∉ name :=
  fun hmem => absurd (List.all_eq_true.mp h.2.2 _ hmem) (by decide)

def servicePath (service : Bytes) : Bytes := ascii "/" ++ service

/-- The path in front of the last component, empty for the root. -/
def parent (path : Bytes) : Bytes := (path.rdropWhile (· ≠ 0x2f)).dropLast

theorem parent_append {name : Bytes} (h : ProperName name) (path : Bytes) :
    parent (path ++ ascii "/" ++ name) = path := by
  have hslash : (path ++ ascii "/").rdropWhile (· ≠ 0x2f) = path ++ ascii "/" :=
    List.rdropWhile_concat_neg _ _ _ (by decide)
  have hdrop : (path ++ ascii "/" ++ name).rdropWhile (· ≠ 0x2f) = path ++ ascii "/" := by
    rw [List.rdropWhile, List.reverse_append, List.dropWhile_append_of_pos]
    · exact hslash
    · intro c hc
      have hne : c ≠ 0x2f := by
        rintro rfl
        exact h.slash_notMem (List.mem_reverse.mp hc)
      simpa using hne
  rw [parent, hdrop]
  exact List.dropLast_concat

theorem parent_servicePath {service : Bytes} (h : ProperName service) :
    parent (servicePath service) = [] := parent_append h []

theorem parent_methodPath {method : MethodDescriptor T} (h : ProperName method.name) :
    parent (MprpcChannel.methodPath method) = servicePath method.service := parent_append h _

theorem c_str_servicePath {service : Bytes} (h : ProperName service) :
    c_str (servicePath service) = servicePath service := by
  apply takeWhile_eq_self
  rw [servicePath, List.mem_append, not_or]
  exact ⟨by decide, h.zero_notMem⟩

theorem c_str_methodPath {method : MethodDescriptor T} (hservice : ProperName method.service)
    (hname : ProperName method.name) :
    c_str (MprpcChannel.methodPath method) = MprpcChannel.methodPath method := by
  apply takeWhile_eq_self
  have hslash : 0 ∉ ascii "/" := by decide
  simp only [MprpcChannel.methodPath, List.mem_append, not_or]
  exact ⟨⟨⟨hslash, hservice.zero_notMem⟩, hslash⟩, hname.zero_notMem⟩

/-- A path tells its service and its method. -/
theorem methodPath_inj {method method' : MethodDescriptor T} (h : ProperName method.name)
    (h' : ProperName method'.name)
    (heq : MprpcChannel.methodPath method = MprpcChannel.methodPath method') :
    method.service = method'.service ∧ method.name = method'.name := by
  have hparent := congrArg parent heq
  rw [parent_methodPath h, parent_methodPath h'] at hparent
  have hservice := List.append_cancel_left hparent
  rw [MprpcChannel.methodPath, MprpcChannel.methodPath, hservice] at heq
  exact ⟨hservice, List.append_cancel_left heq⟩

theorem methodPath_ne_servicePath {method : MethodDescriptor T} (h : ProperName method.name)
    {service : Bytes} (hservice : ProperName service) :
    MprpcChannel.methodPath method ≠ servicePath service := by
  intro heq
  have hparent := congrArg parent heq
  rw [parent_methodPath h, parent_servicePath hservice] at hparent
  cases hparent

/-! ## What a provider publishes -/

/-- The services that a process publishes, and its address. -/
structure Offer (T : Type) where
  services : List (Service T)
  ip : Bytes
  port : UInt16
  dotted : IsDotted ip
  proper : ∀ service ∈ services, ProperName service.GetDescriptor.name ∧
    ∀ method ∈ service.GetDescriptor.methods, ProperName method.name

namespace Offer

def names (o : Offer T) : List Bytes := o.services.map fun service => service.GetDescriptor.name

def provider (o : Offer T) : RpcProvider T := .publish o.services

/-- The calls of `Create` in `Run`. -/
def creations (o : Offer T) : List Creation := Mprpc.creations o.provider o.ip o.port

/-- The process publishes a method of this service and this name. -/
def Publishes (o : Offer T) (method : MethodDescriptor T) : Prop :=
  ∃ service own, o.provider.Publishes method.service method.name service own

theorem m_serviceMap (o : Offer T) : o.provider.m_serviceMap =
    o.services.foldl (fun m s => m.insert s.GetDescriptor.name
      { m_service := s, m_methodMap := RpcProvider.methodMap s.GetDescriptor.methods }) .empty := by
  have hfold : ∀ (services : List (Service T)) (p : RpcProvider T),
      (services.foldl RpcProvider.NotifyService p).m_serviceMap =
        services.foldl (fun m s => m.insert s.GetDescriptor.name
          { m_service := s, m_methodMap := RpcProvider.methodMap s.GetDescriptor.methods })
          p.m_serviceMap := by
    intro services
    induction services with
    | nil => exact fun _ => rfl
    | cons s services ih => exact fun p => ih (p.NotifyService s)
  exact hfold o.services .create

theorem distinct_serviceMap (o : Offer T) : o.provider.m_serviceMap.Distinct := by
  rw [m_serviceMap]
  exact UnorderedMap.distinct_foldl_insert _ _ UnorderedMap.distinct_empty _

theorem exists_service (o : Offer T) {sp : Bytes × ServiceInfo T}
    (hsp : sp ∈ o.provider.m_serviceMap.entries) : ∃ service ∈ o.services,
      sp = (service.GetDescriptor.name,
        ⟨service, RpcProvider.methodMap service.GetDescriptor.methods⟩) := by
  rw [m_serviceMap] at hsp
  obtain hnone | hservice := UnorderedMap.mem_entries_foldl_insert _ _ hsp
  · cases hnone
  · exact hservice

theorem distinct_methodMap (methods : List (MethodDescriptor T)) :
    (RpcProvider.methodMap methods).Distinct :=
  UnorderedMap.distinct_foldl_insert (fun d : MethodDescriptor T => d.name) id
    UnorderedMap.distinct_empty methods

/-- What stands in the tables of the provider can be looked up there, under proper names. -/
theorem of_mem_entries (o : Offer T) {sp : Bytes × ServiceInfo T}
    (hsp : sp ∈ o.provider.m_serviceMap.entries) :
    sp.1 ∈ o.names ∧ ProperName sp.1 ∧ sp.2.m_methodMap.Distinct ∧
      ∀ mp ∈ sp.2.m_methodMap.entries,
        mp.2.service = sp.1 ∧ mp.2.name = mp.1 ∧ ProperName mp.1 ∧ o.Publishes mp.2 := by
  have hfind := UnorderedMap.find_of_mem o.distinct_serviceMap hsp
  obtain ⟨service, hservice, rfl⟩ := o.exists_service hsp
  obtain ⟨hproper, hmethods⟩ := o.proper service hservice
  refine ⟨List.mem_map_of_mem hservice, hproper, distinct_methodMap _, fun mp hmp => ?_⟩
  have hfind' := UnorderedMap.find_of_mem (distinct_methodMap _) hmp
  obtain hnone | ⟨method, hmethod, rfl⟩ := UnorderedMap.mem_entries_foldl_insert
    (fun d : MethodDescriptor T => d.name) id hmp
  · cases hnone
  · have hname := service.GetDescriptor.service_eq method hmethod
    refine ⟨hname, rfl, hmethods method hmethod, service, method, ?_⟩
    rw [id, hname]
    exact ⟨_, hfind, rfl, hfind'⟩

/-- A node for a service, which stays, or a node for a method, which belongs to the session. -/
inductive Creates (o : Offer T) : Creation → Prop
  | service (name : Bytes) (hmem : name ∈ o.names) (hname : ProperName name) :
    Creates o { path := servicePath name, data := some [], state := 0 }
  | method (method : MethodDescriptor T) (hmem : method.service ∈ o.names)
      (hservice : ProperName method.service) (hname : ProperName method.name)
      (hpub : o.Publishes method) :
    Creates o { path := MprpcChannel.methodPath method, data := some (addressText o.ip o.port)
                state := ZOO_EPHEMERAL }

theorem creates_of_mem (o : Offer T) {c : Creation} (hc : c ∈ o.creations) : o.Creates c := by
  obtain ⟨sp, hsp, hc⟩ := List.mem_flatMap.mp hc
  obtain ⟨hmem, hproper, -, hmethods⟩ := o.of_mem_entries hsp
  obtain rfl | hc := List.mem_cons.mp hc
  · have hpath : c_str (ascii "/" ++ sp.1) = servicePath sp.1 := c_str_servicePath hproper
    rw [hpath]
    exact .service sp.1 hmem hproper
  · obtain ⟨mp, hmp, rfl⟩ := List.mem_map.mp hc
    obtain ⟨hservice, hname, hproper', hpub⟩ := hmethods mp hmp
    have hpath : ascii "/" ++ sp.1 ++ ascii "/" ++ mp.1 = MprpcChannel.methodPath mp.2 := by
      rw [MprpcChannel.methodPath, hservice, hname]
    rw [← hservice] at hmem hproper
    rw [← hname] at hproper'
    simp only [hpath]
    rw [c_str_methodPath hproper hproper', methodData_eq o.dotted]
    exact .method mp.2 hmem hproper hproper' hpub

/-- `Run` calls `Create` for every method that is published. -/
theorem exists_creation (o : Offer T) {method : MethodDescriptor T} (h : o.Publishes method) :
    ∃ c ∈ o.creations, c.path = c_str (MprpcChannel.methodPath method) := by
  obtain ⟨_, own, it, hit, -, hown⟩ := h
  have hsp := UnorderedMap.mem_of_find hit
  have hmp := UnorderedMap.mem_of_find hown
  have hmem : methodCreation method o.ip o.port ∈ o.creations :=
    methodCreation_mem hsp hmp rfl rfl o.ip o.port
  exact ⟨_, hmem, rfl⟩

/-- Under the path of a method stands the address of a process that publishes it. -/
theorem of_methodPath (o : Offer T) {method : MethodDescriptor T}
    (hname : ProperName method.name) {c : Creation} (hc : c ∈ o.creations)
    (hpath : c.path = MprpcChannel.methodPath method) :
    o.Publishes method ∧ c.data = some (addressText o.ip o.port) ∧ c.state = ZOO_EPHEMERAL := by
  cases o.creates_of_mem hc with
  | service name _ hproper => exact absurd hpath.symm (methodPath_ne_servicePath hname hproper)
  | method own _ _ hown hpub =>
    obtain ⟨hservice, hmethod⟩ := methodPath_inj hown hname hpath
    obtain ⟨service, own', hfind⟩ := hpub
    rw [hservice, hmethod] at hfind
    exact ⟨⟨service, own', hfind⟩, rfl, rfl⟩

end Offer

end CppInOne.Mprpc
