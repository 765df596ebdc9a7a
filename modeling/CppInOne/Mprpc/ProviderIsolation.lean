import Mathlib.Data.List.Nodup
import CppInOne.Lib.Trace
import CppInOne.Mprpc.ExampleServices
import CppInOne.Mprpc.ProviderRegistry

/-!
# Providers without a common service

The nodes that `RpcProvider::Run` creates all have different paths, and the node of a service
comes before those of its methods. So a provider that shares no service with another one gets
through `Run` and is found at its own address, whatever the other processes do, fail to do and
lose on the server meanwhile.

## Main results

- `lone_provider_is_found`
-/

namespace CppInOne.Mprpc
open ByteString Transition Function

variable {T : Type}

/-! ## The list of a provider -/

namespace Offer

variable {o : Offer T} {sp sp' : Bytes × ServiceInfo T}

/-- The nodes for one service. -/
def entryCreations (o : Offer T) (sp : Bytes × ServiceInfo T) : List Creation :=
  { path := c_str (ascii "/" ++ sp.1), data := some [], state := 0 } ::
    sp.2.m_methodMap.entries.map fun mp =>
      { path := c_str (ascii "/" ++ sp.1 ++ ascii "/" ++ mp.1), data := methodData o.ip o.port
        state := ZOO_EPHEMERAL }

theorem creations_eq (o : Offer T) :
    o.creations = o.provider.m_serviceMap.entries.flatMap o.entryCreations := rfl

theorem paths_entryCreations (hsp : sp ∈ o.provider.m_serviceMap.entries) :
    (o.entryCreations sp).map Creation.path = servicePath sp.1 ::
      sp.2.m_methodMap.entries.map fun mp => servicePath sp.1 ++ ascii "/" ++ mp.1 := by
  obtain ⟨-, hproper, -, hmethods⟩ := o.of_mem_entries hsp
  rw [entryCreations, List.map_cons, List.map_map]
  refine congrArg₂ _ (c_str_servicePath hproper) (List.map_congr_left fun mp hmp => ?_)
  obtain ⟨hservice, hname, hproper', -⟩ := hmethods mp hmp
  have hpath : ascii "/" ++ sp.1 ++ ascii "/" ++ mp.1 = MprpcChannel.methodPath mp.2 := by
    rw [MprpcChannel.methodPath, hservice, hname]
  rw [← hservice] at hproper
  rw [← hname] at hproper'
  change c_str (ascii "/" ++ sp.1 ++ ascii "/" ++ mp.1) = ascii "/" ++ sp.1 ++ ascii "/" ++ mp.1
  rw [hpath, c_str_methodPath hproper hproper']

/-- The service of a node is its last component or the one before. -/
theorem path_cases (hsp : sp ∈ o.provider.m_serviceMap.entries) {path : Bytes}
    (h : path ∈ (o.entryCreations sp).map Creation.path) :
    path = servicePath sp.1 ∨ parent path = servicePath sp.1 := by
  rw [paths_entryCreations hsp] at h
  obtain rfl | h := List.mem_cons.mp h
  · exact Or.inl rfl
  · obtain ⟨mp, hmp, rfl⟩ := List.mem_map.mp h
    obtain ⟨-, -, hproper, -⟩ := (o.of_mem_entries hsp).2.2.2 mp hmp
    exact Or.inr (parent_append hproper _)

theorem servicePath_ne_parent {service service' : Bytes} (h : ProperName service) :
    parent (servicePath service) ≠ servicePath service' := by
  rw [parent_servicePath h]
  intro heq
  cases heq

/-- Services of different names have no node in common. -/
theorem disjoint_paths (hsp : sp ∈ o.provider.m_serviceMap.entries)
    (hsp' : sp' ∈ o.provider.m_serviceMap.entries) (hne : sp.1 ≠ sp'.1) :
    List.Disjoint ((o.entryCreations sp).map Creation.path)
      ((o.entryCreations sp').map Creation.path) := by
  have hproper := (o.of_mem_entries hsp).2.1
  have hproper' := (o.of_mem_entries hsp').2.1
  intro path h h'
  obtain rfl | hparent := path_cases hsp h
  · obtain heq | hparent := path_cases hsp' h'
    · exact hne (List.append_cancel_left heq)
    · exact servicePath_ne_parent hproper hparent
  · obtain rfl | hparent' := path_cases hsp' h'
    · exact servicePath_ne_parent hproper' hparent
    · exact hne (List.append_cancel_left (hparent.symm.trans hparent'))

theorem nodup_paths (o : Offer T) : (o.creations.map Creation.path).Nodup := by
  rw [creations_eq, List.map_flatMap, List.nodup_flatMap]
  constructor
  · intro sp hsp
    have hdistinct := (o.of_mem_entries hsp).2.2.1
    rw [paths_entryCreations hsp, List.nodup_cons]
    constructor
    · intro hmem
      obtain ⟨mp, -, heq⟩ := List.mem_map.mp hmem
      have hlength := congrArg List.length heq
      simp [ascii] at hlength
    · have hkeys := hdistinct.map (f := fun name => servicePath sp.1 ++ ascii "/" ++ name)
        fun _ _ heq => List.append_cancel_left heq
      rwa [List.map_map] at hkeys
  · have hkeys := List.pairwise_map.mp o.distinct_serviceMap
    refine hkeys.imp_of_mem fun {sp sp'} hsp hsp' hne => ?_
    exact disjoint_paths hsp hsp' hne

/-- The parent of a node is the root, or comes earlier on the list and stays. -/
def ParentFirst (before : List Creation) (c : Creation) : Prop :=
  parent c.path = [] ∨ ∃ c' ∈ before, c'.path = parent c.path ∧ c'.state ≠ ZOO_EPHEMERAL

/-- The node of a service is a child of the root, and its methods come after it. -/
theorem parentFirst_entryCreations (hsp : sp ∈ o.provider.m_serviceMap.entries)
    (before : List Creation) {pre post : List Creation} {c : Creation}
    (heq : o.entryCreations sp = pre ++ c :: post) : ParentFirst (before ++ pre) c := by
  have hpaths := paths_entryCreations hsp
  rw [heq] at hpaths
  cases pre with
  | nil =>
    refine Or.inl ?_
    rw [(List.cons.inj hpaths).1]
    exact parent_servicePath (o.of_mem_entries hsp).2.1
  | cons first pre =>
    have hfirst := (List.cons.inj heq).1
    obtain ⟨hpath, hrest⟩ := List.cons.inj hpaths
    have hc : c.path ∈ sp.2.m_methodMap.entries.map
        fun mp => servicePath sp.1 ++ ascii "/" ++ mp.1 := by
      rw [← hrest]
      exact List.mem_map_of_mem (List.mem_append_right pre List.mem_cons_self)
    refine Or.inr ⟨first, List.mem_append_right before List.mem_cons_self, ?_, ?_⟩
    · rw [hpath]
      obtain ⟨mp, hmp, hc⟩ := List.mem_map.mp hc
      obtain ⟨-, -, hproper, -⟩ := (o.of_mem_entries hsp).2.2.2 mp hmp
      rw [← hc, parent_append hproper]
    · have hstate : (0 : Int) ≠ ZOO_EPHEMERAL := by decide
      rw [← hfirst]
      exact hstate

theorem parentFirst_creations (o : Offer T) : Trace.Justified ParentFirst o.creations := by
  rw [creations_eq, ← List.nil_append (List.flatMap _ _)]
  exact Trace.justified_nil.append_flatMap fun _ hsp before _ _ _ heq =>
    parentFirst_entryCreations hsp before heq

/-- Two lists with a node in common belong to processes with a service in common. -/
theorem common_name {o o' : Offer T} {c c' : Creation} (hc : c ∈ o.creations)
    (hc' : c' ∈ o'.creations) (h : c.path = c'.path) : ∃ name ∈ o.names, name ∈ o'.names := by
  cases o.creates_of_mem hc with
  | service name hmem hproper =>
    cases o'.creates_of_mem hc' with
    | service name' hmem' =>
      obtain rfl := List.append_cancel_left h
      exact ⟨name, hmem, hmem'⟩
    | method method' _ _ hname' =>
      exact absurd h.symm (methodPath_ne_servicePath hname' hproper)
  | method method hmem _ hname =>
    cases o'.creates_of_mem hc' with
    | service name' _ hproper' => exact absurd h (methodPath_ne_servicePath hname hproper')
    | method method' hmem' _ hname' =>
      have hservice := (methodPath_inj hname hname' h).1
      exact ⟨method.service, hmem, hservice ▸ hmem'⟩

theorem exists_data (o : Offer T) {c : Creation} (hc : c ∈ o.creations) :
    ∃ data, c.data = some data := by
  cases o.creates_of_mem hc with
  | service => exact ⟨_, rfl⟩
  | method => exact ⟨_, rfl⟩

/-- The node of a service is empty and stays. -/
theorem of_servicePath (o : Offer T) {service : Bytes} (hservice : ProperName service)
    {c : Creation} (hc : c ∈ o.creations) (hpath : c.path = servicePath service) :
    c.data = some [] ∧ c.state = 0 := by
  cases o.creates_of_mem hc with
  | service => exact ⟨rfl, rfl⟩
  | method method _ _ hname => exact absurd hpath (methodPath_ne_servicePath hname hservice)

end Offer

/-! ## A provider by itself -/

namespace ProviderRegistry

variable {Z ι : Type*} [DecidableEq ι] {zk : Ensemble Z ι} {nodes : Z → Bytes → Option (Node ι)}
variable {offer : ι → Offer T}

/-- A node that belongs to no session stays for good. -/
theorem persistent_stays (hzk : zk.Documented nodes) {s s' : State Z ι} {path data : Bytes}
    (hnode : nodes s.z path = some ⟨data, none⟩) (hs' : Reachable (step zk) s s') :
    nodes s'.z path = some ⟨data, none⟩ := by
  refine reachable_invariant (I := fun s => nodes s.z path = some ⟨data, none⟩) ?_ hnode hs'
  intro s a s' hnode hstep
  obtain ⟨hnodes, -⟩ | ⟨r, -, -, hnew, -, hnodes⟩ | ⟨-, -, hnodes⟩ :=
    (Step.of_step hzk hstep).nodes_cases
  · rw [hnodes, hnode]
  · have hne : path ≠ r.path := by
      rintro rfl
      rw [hnode] at hnew
      cases hnew
    rw [hnodes, update_of_ne hne, hnode]
  · rw [hnodes, hnode]
    rfl

/-- The steps of `Run` in a process whose calls get through, those of the server included. -/
def Proceeds (p : ι) (a : Action ι) : Prop :=
  a = .zoo_exists p ∨ a = .zoo_create p ∨ a = .execute p ∨ a = .answer p ∨ a = .serve p

instance (p : ι) (a : Action ι) : Decidable (Proceeds p a) :=
  inferInstanceAs (Decidable (_ ∨ _ ∨ _ ∨ _ ∨ _))

/-- The nodes of a process that the server has not created yet. -/
def State.missing (s : State Z ι) (p : ι) : List Creation :=
  match s.process p with
  | .creating rest => rest
  | .absent c rest => c :: rest
  | .waiting c rest => if (s.request p).isSome then c :: rest else rest
  | .serving => []
  | .exited => []

/-- How many steps a process still needs when every node is to be created. -/
def State.left (s : State Z ι) (p : ι) : Nat :=
  match s.process p with
  | .creating rest => 4 * rest.length + 1
  | .absent _ rest => 4 * rest.length + 4
  | .waiting _ rest => 4 * rest.length + if (s.request p).isSome then 3 else 2
  | .serving => 0
  | .exited => 0

omit [DecidableEq ι] in
theorem State.missing_congr {s s' : State Z ι} {p : ι} (hprocess : s'.process p = s.process p)
    (hrequest : s'.request p = s.request p) :
    s'.missing p = s.missing p ∧ s'.left p = s.left p := by
  simp only [State.missing, State.left, hprocess, hrequest, and_self]

/-- The server has created the front of the list of the process, and nothing of the rest is
there. -/
structure Alone (offer : ι → Offer T) (nodes : Z → Bytes → Option (Node ι)) (p : ι)
    (s : State Z ι) : Prop where
  session : s.session p = true
  running : s.process p ≠ .exited
  linked : Linked s p
  answered : ∀ flag, s.answer p = some flag → flag = ZOK
  missing : ∀ c ∈ s.missing p, nodes s.z c.path = none
  created : ∃ before, (offer p).creations = before ++ s.missing p ∧
    ∀ c ∈ before, ∃ data, c.data = some data ∧ nodes s.z c.path = some (.make p data c.state)

omit [DecidableEq ι] in
theorem alone_start {p : ι} {z : Z} (hz : ∀ c ∈ (offer p).creations, nodes z c.path = none) :
    Alone offer nodes p (start offer z) where
  session := rfl
  running h := by cases h
  linked := ⟨rfl, rfl⟩
  answered _ h := by cases h
  missing := hz
  created := ⟨[], rfl, fun _ h => absurd h List.not_mem_nil⟩

/-- What the others do on the server stays away from the paths of this process. -/
theorem nodes_of_other {s s' : State Z ι} {a : Action ι} {p : ι} (h : Step zk nodes s a s')
    (hl : Listed offer s) (ha : a.actor ≠ p)
    (hnames : List.Disjoint (offer a.actor).names (offer p).names) {c : Creation}
    (hc : c ∈ (offer p).creations) :
    (nodes s.z c.path = none → nodes s'.z c.path = none) ∧
      ∀ data, nodes s.z c.path = some (.make p data c.state) →
        nodes s'.z c.path = some (.make p data c.state) := by
  obtain ⟨hnodes, -⟩ | ⟨r, hr, -, -, -, hnodes⟩ | ⟨-, -, hnodes⟩ := h.nodes_cases
  · rw [hnodes]
    exact ⟨id, fun _ => id⟩
  · have hne : c.path ≠ r.path := by
      intro heq
      obtain ⟨c', hc', hpath, -⟩ := hl.request _ r hr
      obtain ⟨name, hmem, hmem'⟩ := Offer.common_name hc hc' (heq.trans hpath.symm)
      exact hnames hmem' hmem
    rw [hnodes, update_of_ne hne]
    exact ⟨id, fun _ => id⟩
  · rw [hnodes]
    refine ⟨fun hnone => ?_, fun data hnode => ?_⟩
    · rw [hnone]
      rfl
    · have howner : (Node.make p data c.state).ephemeralOwner ≠ some a.actor := by
        rw [Node.make]
        split
        · exact fun heq => ha (Option.some.inj heq).symm
        · exact fun heq => by cases heq
      rw [hnode, Option.filter_some, if_pos (decide_eq_true howner)]

theorem Alone.other {s s' : State Z ι} {a : Action ι} {p : ι} (hI : Alone offer nodes p s)
    (h : Step zk nodes s a s') (hl : Listed offer s) (ha : a.actor ≠ p)
    (hnames : List.Disjoint (offer a.actor).names (offer p).names) :
    Alone offer nodes p s' ∧ s'.left p = s.left p := by
  obtain ⟨hprocess, hrequest, hanswer⟩ := h.of_ne ha.symm
  obtain ⟨hmissing, hleft⟩ := State.missing_congr hprocess hrequest
  obtain ⟨before, hlist, hbefore⟩ := hI.created
  refine ⟨⟨?_, ?_, hI.linked.step h, ?_, ?_, before, ?_, fun c hc => ?_⟩, hleft⟩
  · obtain ⟨-, hsession⟩ | ⟨_, -, -, -, hsession, -⟩ | ⟨-, hsession, -⟩ := h.nodes_cases
    · rw [hsession, hI.session]
    · rw [hsession, hI.session]
    · rw [hsession, update_of_ne ha.symm, hI.session]
  · rw [hprocess]
    exact hI.running
  · rw [hanswer]
    exact hI.answered
  · rw [hmissing]
    intro c hc
    have hmem : c ∈ (offer p).creations := hlist ▸ List.mem_append_right _ hc
    exact (nodes_of_other h hl ha hnames hmem).1 (hI.missing c hc)
  · rw [hmissing, hlist]
  · obtain ⟨data, hdata, hnode⟩ := hbefore c hc
    have hmem : c ∈ (offer p).creations := hlist ▸ List.mem_append_left _ hc
    exact ⟨data, hdata, (nodes_of_other h hl ha hnames hmem).2 data hnode⟩

omit [DecidableEq ι] in
/-- A node that the server has created comes after the node of its service, which stays. -/
theorem created_parent {p : ι} {s : State Z ι} {before rest : List Creation}
    (hlist : (offer p).creations = before ++ rest)
    (hbefore : ∀ c ∈ before, ∃ data, c.data = some data ∧
      nodes s.z c.path = some (.make p data c.state)) {pre post : List Creation} {c : Creation}
    (hc : before ++ rest = pre ++ c :: post) (hpre : pre ⊆ before) {service : Bytes}
    (hservice : ProperName service) (hparent : parent c.path = servicePath service) :
    nodes s.z (servicePath service) = some ⟨[], none⟩ := by
  obtain hroot | ⟨c', hc', hpath, hstate⟩ :=
    (offer p).parentFirst_creations pre c post (hlist.trans hc)
  · rw [hparent] at hroot
    cases hroot
  · rw [hparent] at hpath
    have hmem : c' ∈ (offer p).creations := hlist ▸ List.mem_append_left _ (hpre hc')
    obtain ⟨data, hdata, hnode⟩ := hbefore c' (hpre hc')
    obtain ⟨hempty, hzero⟩ := (offer p).of_servicePath hservice hmem hpath
    rw [hempty] at hdata
    cases hdata
    rw [← hpath, hnode, Node.make, if_neg hstate]

/-- The server creates the next node on the list. -/
theorem Alone.accepted (hzk : zk.Documented nodes) {p : ι} {s : State Z ι}
    (hI : Alone offer nodes p s) {c : Creation} {rest : List Creation} {data : Bytes}
    (hmissing : s.missing p = c :: rest) (hdata : c.data = some data) :
    ((zk.client p).zoo_create s.z c.path data c.state).2 = ZOK := by
  obtain ⟨before, hlist, hbefore⟩ := hI.created
  rw [hmissing] at hlist
  have hmem : c ∈ (offer p).creations := hlist ▸ List.mem_append_right _ List.mem_cons_self
  have hnew : nodes s.z c.path = none := hI.missing c (by rw [hmissing]; exact List.mem_cons_self)
  have hslash : (ascii "/").length = 1 := rfl
  cases (offer p).creates_of_mem hmem with
  | service name _ hname =>
    cases hdata
    refine hzk.create_new p s.z [] name [] 0 hname ?_ (Or.inl rfl) hnew
    have hsize := hname.2.1
    simp only [List.length_append, List.length_nil, hslash]
    omega
  | method method _ hservice hname =>
    cases hdata
    have hparent := created_parent hlist hbefore rfl (List.Subset.refl _) hservice
      (parent_methodPath hname)
    refine hzk.create_new p s.z (servicePath method.service) method.name _ _ hname ?_
      (Or.inr ⟨_, hparent, rfl⟩) hnew
    have hsize := hservice.2.1
    have hsize' := hname.2.1
    have haddress := addressText_length (offer p).dotted (offer p).port
    simp only [List.length_append, servicePath, hslash]
    omega

omit [DecidableEq ι] in
/-- A step that only moves the process on keeps what the server has created. -/
theorem Alone.of_missing {s s' : State Z ι} {p : ι} (hI : Alone offer nodes p s)
    (hlinked : Linked s' p) (hz : s'.z = s.z) (hsession : s'.session = s.session)
    (hrunning : s'.process p ≠ .exited) (hanswered : ∀ flag, s'.answer p = some flag → flag = ZOK)
    (hmissing : s'.missing p = s.missing p) : Alone offer nodes p s' := by
  obtain ⟨before, hlist, hbefore⟩ := hI.created
  refine ⟨hsession ▸ hI.session, hrunning, hlinked, hanswered, ?_, before, ?_, ?_⟩
  · rw [hmissing, hz]
    exact hI.missing
  · rw [hmissing, hlist]
  · rw [hz]
    exact hbefore

omit [DecidableEq ι] in
/-- A request is on its way only while the process waits for it. -/
theorem Alone.waiting {s : State Z ι} {p : ι} (hI : Alone offer nodes p s) {r : Request}
    (hr : s.request p = some r) : ∃ c rest, s.process p = .waiting c rest ∧
      c.data = some r.data ∧ r.path = c.path ∧ r.state = c.state := by
  have hlinked := hI.linked
  unfold Linked at hlinked
  cases hp : s.process p with
  | waiting c rest =>
    rw [hp] at hlinked
    obtain ⟨data, hdata, hrequest, -⟩ | ⟨hnone, -⟩ := hlinked
    · rw [hrequest] at hr
      cases hr
      exact ⟨c, rest, rfl, hdata, rfl, rfl⟩
    · rw [hnone] at hr
      cases hr
  | exited => exact absurd hp hI.running
  | creating | absent | serving =>
    rw [hp] at hlinked
    rw [hlinked.1] at hr
    cases hr

omit [DecidableEq ι] in
/-- The server has created the node that the process waits for. -/
theorem Alone.create {s s' : State Z ι} {p : ι} (hI : Alone offer nodes p s) {c : Creation}
    {rest : List Creation} {data : Bytes} (hhead : s.missing p = c :: rest)
    (hdata : c.data = some data) (hlinked : Linked s' p) (hsession : s'.session = s.session)
    (hrunning : s'.process p ≠ .exited) (hanswer : s'.answer p = some ZOK)
    (hmissing : s'.missing p = rest)
    (hz : nodes s'.z = update (nodes s.z) c.path (some (.make p data c.state))) :
    Alone offer nodes p s' := by
  obtain ⟨before, hlist, hbefore⟩ := hI.created
  have hold := hI.missing
  rw [hhead] at hlist hold
  -- no path is twice on the list
  have hnodup := (offer p).nodup_paths
  rw [hlist, List.map_append] at hnodup
  obtain ⟨-, htail, hdisjoint⟩ := List.nodup_append.mp hnodup
  have hc := (List.nodup_cons.mp htail).1
  refine ⟨hsession ▸ hI.session, hrunning, hlinked, ?_, ?_, before ++ [c], ?_, ?_⟩
  · intro flag hflag
    rw [hanswer] at hflag
    exact (Option.some.inj hflag).symm
  · rw [hmissing]
    intro c' hc'
    have hne : c'.path ≠ c.path := fun heq => hc (heq ▸ List.mem_map_of_mem hc')
    rw [hz, update_of_ne hne]
    exact hold c' (List.mem_cons_of_mem c hc')
  · rw [hmissing, hlist, List.append_assoc]
    rfl
  · intro c' hc'
    rw [hz]
    obtain hc' | hc' := List.mem_append.mp hc'
    · obtain ⟨data', hdata', hnode'⟩ := hbefore c' hc'
      have hne : c'.path ≠ c.path := hdisjoint _ (List.mem_map_of_mem hc') _ List.mem_cons_self
      exact ⟨data', hdata', (update_of_ne hne _ _).trans hnode'⟩
    · obtain rfl := List.mem_singleton.mp hc'
      exact ⟨data, hdata, update_self _ _ _⟩

/-- Each step of the process, or of the server for it, takes it one step on. -/
theorem Alone.own (hzk : zk.Documented nodes) {s s' : State Z ι} {a : Action ι} {p : ι}
    (hI : Alone offer nodes p s) (h : Step zk nodes s a s') (ha : Proceeds p a) :
    Alone offer nodes p s' ∧ s'.left p + 1 = s.left p := by
  have hlinked := hI.linked.step h
  have hlinked₀ := hI.linked
  unfold Linked at hlinked₀
  obtain rfl | rfl | rfl | rfl | rfl := ha
  · -- `zoo_exists`: the node cannot be there
    cases h with
    | @found _ c rest hp _ hnode =>
      have hmissing := hI.missing
      rw [State.missing, hp] at hmissing
      exact absurd (hmissing c List.mem_cons_self) hnode
    | @missing _ c rest hp _ hnode =>
      have hsame : (s.setProcess p (.absent c rest)).missing p = s.missing p := by
        simp only [State.missing, State.setProcess_self, hp]
      refine ⟨hI.of_missing hlinked rfl rfl (by simp) hI.answered hsame, ?_⟩
      simp only [State.left, State.setProcess_self, hp, List.length_cons]
      omega
  · cases h with
    | @requested _ c rest data hp hdata =>
      rw [hp] at hlinked₀
      have hsame : ({ s with
            request := update s.request p (some ⟨c.path, data, c.state⟩) }.setProcess p
          (.waiting c rest)).missing p = s.missing p := by
        simp [State.missing, State.setProcess, hp]
      refine ⟨hI.of_missing hlinked rfl rfl (by simp) hI.answered hsame, ?_⟩
      simp [State.left, State.setProcess, hp]
  · -- the server: it cannot refuse
    cases h with
    | @created _ r z hr hs hnode hz =>
      obtain ⟨c, rest, hp, hdata, hpath, hstate⟩ := hI.waiting hr
      have hhead : s.missing p = c :: rest := by
        simp [State.missing, hp, hr]
      have hrest : State.missing { s with
          z, request := update s.request p none, answer := update s.answer p (some ZOK) } p =
          rest := by
        simp [State.missing, hp]
      rw [hpath, hstate] at hz
      refine ⟨hI.create hhead hdata hlinked rfl hI.running (update_self _ _ _) hrest hz, ?_⟩
      simp [State.left, hp, hr]
    | @refused _ r z flag hr hs hrefused hflag hz =>
      obtain ⟨c, rest, hp, hdata, hpath, hstate⟩ := hI.waiting hr
      have hhead : s.missing p = c :: rest := by
        simp [State.missing, hp, hr]
      rw [hpath, hstate, hI.accepted hzk hhead hdata] at hrefused
      exact absurd hrefused.symm hflag
  · cases h with
    | @created_reply _ c rest hp hanswer =>
      rw [hp] at hlinked₀
      obtain ⟨_, -, -, hnone⟩ | ⟨hrequest, -⟩ := hlinked₀
      · rw [hnone] at hanswer
        cases hanswer
      · have hsame : ({ s with answer := update s.answer p none }.setProcess p
            (.creating rest)).missing p = s.missing p := by
          simp [State.missing, hp, hrequest]
        refine ⟨hI.of_missing hlinked rfl rfl (by simp) (fun flag hflag => ?_) hsame, ?_⟩
        · simp [State.setProcess] at hflag
        · simp [State.left, hp, hrequest]
    | refused_reply hp hanswer hflag => exact absurd (hI.answered _ hanswer) hflag
  · cases h with
    | serve hp =>
      have hsame : (s.setProcess p .serving).missing p = s.missing p := by
        simp only [State.missing, State.setProcess_self, hp]
      refine ⟨hI.of_missing hlinked rfl rfl (by simp) hI.answered hsame, ?_⟩
      simp [State.left, hp]

/-- The process or the server can go on. -/
theorem Alone.progress {s : State Z ι} {p : ι} (hI : Alone offer nodes p s) (hl : Listed offer s)
    (hp : s.process p ≠ .serving) : ∃ a, Proceeds p a ∧ (step zk s a).isSome = true := by
  have hlinked := hI.linked
  unfold Linked at hlinked
  cases hprocess : s.process p with
  | creating rest =>
    cases rest with
    | nil =>
      refine ⟨.serve p, Or.inr (Or.inr (Or.inr (Or.inr rfl))), ?_⟩
      rw [step, if_pos hprocess]
      rfl
    | cons c rest =>
      refine ⟨.zoo_exists p, Or.inl rfl, ?_⟩
      rw [step, hprocess]
      simp only [hI.session, if_true, Option.isSome_some]
  | absent c rest =>
    have hc : c ∈ (s.process p).todo := by
      rw [hprocess]
      exact List.mem_cons_self
    obtain ⟨data, hdata⟩ := (offer p).exists_data (hl.todo p hc)
    refine ⟨.zoo_create p, Or.inr (Or.inl rfl), ?_⟩
    rw [step, hprocess]
    simp only [hdata, Option.map_some, Option.isSome_some]
  | waiting c rest =>
    rw [hprocess] at hlinked
    obtain ⟨data, -, hrequest, -⟩ | ⟨-, hanswer⟩ := hlinked
    · refine ⟨.execute p, Or.inr (Or.inr (Or.inl rfl)), ?_⟩
      rw [step, hrequest]
      simp only [hI.session, if_true, Option.isSome_some]
    · obtain ⟨flag, hflag⟩ := Option.ne_none_iff_exists'.mp hanswer
      refine ⟨.answer p, Or.inr (Or.inr (Or.inr (Or.inl rfl))), ?_⟩
      rw [step, hprocess, hflag]
      rfl
  | serving => exact absurd hprocess hp
  | exited => exact absurd hprocess hI.running

/-- How many steps of the run are those of `p`, or of the server for `p`. -/
def ownSteps (p : ι) (as : List (Action ι)) : Nat := as.countP fun a => a.actor = p

/-- A run, by induction on its actions: the steps of the others change nothing for `p`, and its
own ones are counted. -/
theorem alone_run (hzk : zk.Documented nodes) {p : ι}
    (hnames : ∀ q, q ≠ p → List.Disjoint (offer q).names (offer p).names)
    {as : List (Action ι)} (hown : ∀ a ∈ as, a.actor = p → Proceeds p a) {s t : State Z ι}
    (hl : Listed offer s) (hI : Alone offer nodes p s) (hrun : run (step zk) s as = some t) :
    Listed offer t ∧ Alone offer nodes p t ∧ ownSteps p as + t.left p = s.left p := by
  induction as generalizing s with
  | nil =>
    cases hrun
    exact ⟨hl, hI, Nat.zero_add _⟩
  | cons a as ih =>
    obtain ⟨s', hstep, hrest⟩ := run_cons_eq_some.mp hrun
    have h := Step.of_step hzk hstep
    have hown' : ∀ b ∈ as, b.actor = p → Proceeds p b :=
      fun b hb => hown b (List.mem_cons_of_mem a hb)
    rw [ownSteps, List.countP_cons]
    by_cases ha : a.actor = p
    · obtain ⟨hI', hleft⟩ := hI.own hzk h (hown a List.mem_cons_self ha)
      obtain ⟨hl', hI'', hcount⟩ := ih hown' (hl.step h) hI' hrest
      refine ⟨hl', hI'', ?_⟩
      rw [ownSteps] at hcount
      rw [if_pos (decide_eq_true ha)]
      omega
    · obtain ⟨hI', hleft⟩ := hI.other h hl ha (hnames _ ha)
      obtain ⟨hl', hI'', hcount⟩ := ih hown' (hl.step h) hI' hrest
      refine ⟨hl', hI'', ?_⟩
      rw [ownSteps, hleft] at hcount
      rw [if_neg (by simpa using ha)]
      exact hcount

/-- **A provider that shares no service with another one is published whatever the others do**:
as long as its own calls get through and its session lasts, it goes on until its steps are four for
each node and one, and then it serves and every method of it is found at its address. Where the
node of a method is, the node of its service has come first, and stays. -/
theorem lone_provider_is_found (hzk : zk.Documented nodes) (offer : ι → Offer T) {z : Z}
    {as : List (Action ι)} {s : State Z ι} {p : ι}
    (hrun : run (step zk) (start offer z) as = some s)
    (hz : ∀ c ∈ (offer p).creations, nodes z c.path = none)
    (hnames : ∀ q, q ≠ p → List.Disjoint (offer q).names (offer p).names)
    (hown : ∀ a ∈ as, a.actor = p → Proceeds p a) :
    ownSteps p as ≤ 4 * (offer p).creations.length + 1 ∧
      (ownSteps p as < 4 * (offer p).creations.length + 1 →
        ∃ a, Proceeds p a ∧ (step zk s a).isSome = true) ∧
      (ownSteps p as = 4 * (offer p).creations.length + 1 → s.process p = .serving ∧
        ∀ method, ProperName method.service → ProperName method.name →
          (offer p).Publishes method → Offered offer nodes s method p) ∧
      ∀ method, ProperName method.service → ProperName method.name →
        (offer p).Publishes method → nodes s.z (MprpcChannel.methodPath method) ≠ none →
          ∀ s', Reachable (step zk) s s' →
            nodes s'.z (servicePath method.service) = some ⟨[], none⟩ := by
  obtain ⟨hl, hI, hcount⟩ :=
    alone_run hzk hnames hown (listed_start offer z) (alone_start hz) hrun
  change ownSteps p as + s.left p = 4 * (offer p).creations.length + 1 at hcount
  obtain ⟨before, hlist, hbefore⟩ := hI.created
  refine ⟨by omega, fun hlt => ?_, fun heq => ?_, fun method hservice hname hpub hnode s' hs' => ?_⟩
  · refine hI.progress hl fun hserving => ?_
    simp only [State.left, hserving] at hcount
    omega
  · have hserving : s.process p = .serving := by
      cases hprocess : s.process p with
      | creating rest | absent c rest =>
        simp only [State.left, hprocess] at hcount
        omega
      | waiting c rest =>
        simp only [State.left, hprocess] at hcount
        split at hcount <;> omega
      | serving => rfl
      | exited => exact absurd hprocess hI.running
    refine ⟨hserving, fun method hservice hname hpub => ⟨hpub, hI.session, ?_⟩⟩
    obtain ⟨c, hc, hpath⟩ := (offer p).exists_creation hpub
    rw [c_str_methodPath hservice hname] at hpath
    simp only [State.missing, hserving, List.append_nil] at hlist
    obtain ⟨data, hdata, hnode⟩ := hbefore c (hlist ▸ hc)
    obtain ⟨-, haddress, -⟩ := (offer p).of_methodPath hname hc hpath
    rw [content, ← hpath, hnode, ← haddress, hdata]
    rfl
  · obtain ⟨c, hc, hpath⟩ := (offer p).exists_creation hpub
    rw [c_str_methodPath hservice hname] at hpath
    -- a node that is there is one that the server has created for this process
    have hcreated : c ∈ before := by
      rw [hlist] at hc
      refine (List.mem_append.mp hc).resolve_right fun hmissing => hnode ?_
      rw [← hpath]
      exact hI.missing c hmissing
    obtain ⟨pre, post, rfl⟩ := List.append_of_mem hcreated
    have hsplit : pre ++ c :: post ++ s.missing p = pre ++ c :: (post ++ s.missing p) := by
      rw [List.append_assoc, List.cons_append]
    have hparent : parent c.path = servicePath method.service := by
      rw [hpath]
      exact parent_methodPath hname
    have hservice' := created_parent hlist hbefore hsplit (List.subset_append_left _ _) hservice
      hparent
    exact persistent_stays hzk hservice' hs'

/-- `userservice.cc` and `friendservice.cc`, each on a host of its own. -/
def userAndFriend (p : Bool) : Offer MessageType where
  services := if p then [FriendService] else [UserService]
  ip := if p then ascii "127.0.0.2" else localhost
  port := 8000
  dotted := by
    cases p with
    | false => decide +kernel
    | true => decide +kernel
  proper := by
    cases p with
    | false => exact (twoProviders false).proper
    | true =>
      have hmethod : ProperName GetFriendsList.name := by decide
      exact List.forall_mem_singleton.mpr ⟨by decide, List.forall_mem_singleton.mpr hmethod⟩

/-- The second process loses its connection and then its session. -/
def secondFails : List (Action Bool) :=
  [.zoo_exists true, .zoo_create true] ++ creates false ++
    [.execute true, .fails true, .expire true] ++ creates false ++ creates false ++ [.serve false]

theorem lone_provider_is_found_user : ∃ s,
    run (step (Tree.ensemble Bool)) (start userAndFriend noNodes) secondFails = some s ∧
      s.process true = .exited ∧
      ownSteps false secondFails ≤ 4 * (userAndFriend false).creations.length + 1 ∧
      (ownSteps false secondFails < 4 * (userAndFriend false).creations.length + 1 →
        ∃ a, Proceeds false a ∧ (step (Tree.ensemble Bool) s a).isSome = true) ∧
      (ownSteps false secondFails = 4 * (userAndFriend false).creations.length + 1 →
        s.process false = .serving ∧
          ∀ method, ProperName method.service → ProperName method.name →
            (userAndFriend false).Publishes method →
              Offered userAndFriend Tree.get s method false) ∧
      ∀ method, ProperName method.service → ProperName method.name →
        (userAndFriend false).Publishes method →
          Tree.get s.z (MprpcChannel.methodPath method) ≠ none →
            ∀ s', Reachable (step (Tree.ensemble Bool)) s s' →
              Tree.get s'.z (servicePath method.service) = some ⟨[], none⟩ :=
  ⟨_, rfl, rfl, lone_provider_is_found Tree.documented_ensemble userAndFriend
    (rfl : run (step (Tree.ensemble Bool)) (start userAndFriend noNodes) secondFails = some _)
    (fun _ _ => rfl)
    (fun q hq => by
      cases q with
      | false => exact absurd rfl hq
      | true => exact List.disjoint_left.mpr (by decide))
    (by decide)⟩

end ProviderRegistry

end CppInOne.Mprpc
