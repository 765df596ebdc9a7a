import CppInOne.Lib.Transition
import CppInOne.Mprpc.Ensemble

/-!
# The registry of several providers

Any number of provider processes run `RpcProvider::Run` against one zookeeper server. `Create`
asks for a node and creates it in two calls, and the request of the second one is on its way for a
while. Other processes get in between, connections fail, processes die with a request on its way,
and sessions end. This file follows the nodes through all orders of these steps.

## Main definitions

- `Process`, `step` — the processes, their requests and the answers

## Main results

- `create_undisturbed` — the two calls are `Create` when nothing comes in between
- `found_provider_is_registered` — a client is only ever sent to a live provider of the method
- `served_method_is_found`, `lost_for_good` — when a provider that serves is found, and when not
-/

namespace CppInOne.Mprpc
open ByteString Transition Function

variable {T : Type}
variable {Z ι : Type*} [DecidableEq ι] {zk : Ensemble Z ι} {nodes : Z → Bytes → Option (Node ι)}

/-! ## The processes -/

namespace ProviderRegistry

/-- Where a process is in `Run`. -/
inductive Process where
  /-- In front of the `Create` for the first of these, or behind all of them. -/
  | creating (rest : List Creation)
  /-- `zoo_exists` has found no node for `c`. -/
  | absent (c : Creation) (rest : List Creation)
  /-- In the `zoo_create` for `c`. -/
  | waiting (c : Creation) (rest : List Creation)
  | serving
  | exited
  deriving DecidableEq, Repr

/-- The arguments of a `zoo_create`. -/
structure Request where
  path : Bytes
  data : Bytes
  state : Int
  deriving DecidableEq, Repr

structure State (Z ι : Type*) where
  z : Z
  process : ι → Process
  /-- The session of the process has not ended. -/
  session : ι → Bool
  /-- On its way to the server, also when the process has ended. -/
  request : ι → Option Request
  /-- On its way back. -/
  answer : ι → Option Int

/-- The end of a process is a step of its own; its session ends later, or earlier. -/
inductive Action (ι : Type*) where
  | zoo_exists (p : ι)
  | zoo_create (p : ι)
  /-- The server gets the request of the process. -/
  | execute (p : ι)
  | answer (p : ι)
  /-- A call comes back with an error of the connection or the session. -/
  | fails (p : ι)
  | serve (p : ι)
  | exit (p : ι)
  | expire (p : ι)
  deriving DecidableEq, Repr

namespace State

def setProcess (s : State Z ι) (p : ι) (process : Process) : State Z ι :=
  { s with process := update s.process p process }

@[simp] theorem setProcess_self (s : State Z ι) (p : ι) (process : Process) :
    (s.setProcess p process).process p = process := update_self _ _ _

theorem setProcess_of_ne (s : State Z ι) {p q : ι} (h : q ≠ p) (process : Process) :
    (s.setProcess p process).process q = s.process q := update_of_ne h _ _

end State

def start (offer : ι → Offer T) (z : Z) : State Z ι where
  z
  process := fun p => .creating (offer p).creations
  session := fun _ => true
  request := fun _ => none
  answer := fun _ => none

/-- What a process does next, or the server. The server executes nothing for a session that has
ended. -/
def step (zk : Ensemble Z ι) (s : State Z ι) : Action ι → Option (State Z ι)
  | .zoo_exists p =>
    match s.process p with
    | .creating (c :: rest) =>
      if s.session p then
        let flag := (zk.client p).zoo_exists s.z c.path
        some (s.setProcess p (if flag = ZNONODE then .absent c rest else .creating rest))
      else none
    | _ => none
  | .zoo_create p =>
    match s.process p with
    | .absent c rest => c.data.map fun data =>
      { s with request := update s.request p (some ⟨c.path, data, c.state⟩) }.setProcess p
        (.waiting c rest)
    | _ => none
  | .execute p =>
    match s.request p with
    | some r =>
      if s.session p then
        let (z, flag) := (zk.client p).zoo_create s.z r.path r.data r.state
        some { s with
          z
          request := update s.request p none
          answer := update s.answer p (some flag) }
      else none
    | none => none
  | .answer p =>
    match s.process p, s.answer p with
    | .waiting _ rest, some flag =>
      some ({ s with answer := update s.answer p none }.setProcess p
        (if flag = ZOK then .creating rest else .exited))
    | _, _ => none
  | .fails p =>
    match s.process p with
    | .creating (_ :: rest) => some (s.setProcess p (.creating rest))
    | .absent _ _ | .waiting _ _ => some (s.setProcess p .exited)
    | _ => none
  | .serve p => if s.process p = .creating [] then some (s.setProcess p .serving) else none
  | .exit p => some (s.setProcess p .exited)
  | .expire p => some { s with z := zk.expire s.z p, session := update s.session p false }

/-- What a step can do. -/
inductive Step (zk : Ensemble Z ι) (nodes : Z → Bytes → Option (Node ι)) (s : State Z ι) :
    Action ι → State Z ι → Prop
  | found {p c rest} (hp : s.process p = .creating (c :: rest)) (hs : s.session p = true)
      (hnode : nodes s.z c.path ≠ none) :
      Step zk nodes s (.zoo_exists p) (s.setProcess p (.creating rest))
  | missing {p c rest} (hp : s.process p = .creating (c :: rest)) (hs : s.session p = true)
      (hnode : nodes s.z c.path = none) :
      Step zk nodes s (.zoo_exists p) (s.setProcess p (.absent c rest))
  | requested {p c rest data} (hp : s.process p = .absent c rest) (hdata : c.data = some data) :
      Step zk nodes s (.zoo_create p)
        ({ s with request := update s.request p (some ⟨c.path, data, c.state⟩) }.setProcess p
          (.waiting c rest))
  | created {p r} (z : Z) (hr : s.request p = some r) (hs : s.session p = true)
      (hnode : nodes s.z r.path = none)
      (hz : nodes z = update (nodes s.z) r.path (some (.make p r.data r.state))) :
      Step zk nodes s (.execute p)
        { s with z, request := update s.request p none, answer := update s.answer p (some ZOK) }
  | refused {p r} (z : Z) (flag : Int) (hr : s.request p = some r) (hs : s.session p = true)
      (hrefused : ((zk.client p).zoo_create s.z r.path r.data r.state).2 = flag)
      (hflag : flag ≠ ZOK) (hz : nodes z = nodes s.z) :
      Step zk nodes s (.execute p)
        { s with z, request := update s.request p none, answer := update s.answer p (some flag) }
  | created_reply {p c rest} (hp : s.process p = .waiting c rest) (ha : s.answer p = some ZOK) :
      Step zk nodes s (.answer p)
        ({ s with answer := update s.answer p none }.setProcess p (.creating rest))
  | refused_reply {p c rest flag} (hp : s.process p = .waiting c rest)
      (ha : s.answer p = some flag) (hflag : flag ≠ ZOK) :
      Step zk nodes s (.answer p)
        ({ s with answer := update s.answer p none }.setProcess p .exited)
  | skipped {p c rest} (hp : s.process p = .creating (c :: rest)) :
      Step zk nodes s (.fails p) (s.setProcess p (.creating rest))
  | aborted {p c rest} (hp : s.process p = .absent c rest ∨ s.process p = .waiting c rest) :
      Step zk nodes s (.fails p) (s.setProcess p .exited)
  | serve {p} (hp : s.process p = .creating []) :
      Step zk nodes s (.serve p) (s.setProcess p .serving)
  | exit {p} : Step zk nodes s (.exit p) (s.setProcess p .exited)
  | expire {p} (z : Z)
      (hz : ∀ path, nodes z path = (nodes s.z path).filter (·.ephemeralOwner ≠ some p)) :
      Step zk nodes s (.expire p) { s with z, session := update s.session p false }

theorem Step.of_step (hzk : zk.Documented nodes) {s s' : State Z ι} {a : Action ι}
    (h : step zk s a = some s') : Step zk nodes s a s' := by
  cases a with
  | zoo_exists p =>
    rw [step] at h
    split at h
    · next c rest hp =>
      obtain ⟨hs, h⟩ := Option.ite_none_right_eq_some.mp h
      cases h
      -- the answer of the server is the truth at this moment
      have hflag := hzk.exists_iff p s.z c.path
      by_cases hnode : nodes s.z c.path = none
      · rw [if_pos (hflag.mpr hnode)]
        exact .missing hp hs hnode
      · rw [if_neg (mt hflag.mp hnode)]
        exact .found hp hs hnode
    · cases h
  | zoo_create p =>
    rw [step] at h
    split at h
    · next c rest hp =>
      obtain ⟨data, hdata, rfl⟩ := Option.map_eq_some_iff.mp h
      exact .requested hp hdata
    · cases h
  | execute p =>
    rw [step] at h
    split at h
    · next r hr =>
      obtain ⟨hs, h⟩ := Option.ite_none_right_eq_some.mp h
      cases h
      -- the server makes the node, or leaves everything as it is
      by_cases hflag : ((zk.client p).zoo_create s.z r.path r.data r.state).2 = ZOK
      · obtain ⟨hnode, hz⟩ := hzk.create_ok p s.z r.path r.data r.state hflag
        rw [hflag]
        exact .created _ hr hs hnode hz
      · refine .refused _ _ hr hs rfl hflag ?_
        exact hzk.create_error p s.z r.path r.data r.state hflag
    · cases h
  | answer p =>
    rw [step] at h
    split at h
    · next c rest flag hp ha =>
      cases h
      -- any other reply ends the process
      by_cases hflag : flag = ZOK
      · subst hflag
        exact .created_reply hp ha
      · rw [if_neg hflag]
        exact .refused_reply hp ha hflag
    · cases h
  | fails p =>
    rw [step] at h
    split at h
    · next c rest hp =>
      cases h
      -- a lookup that fails is taken for a node that is there
      exact .skipped hp
    · next c rest hp =>
      cases h
      exact .aborted (Or.inl hp)
    · next c rest hp =>
      cases h
      exact .aborted (Or.inr hp)
    · cases h
  | serve p =>
    obtain ⟨hp, h⟩ := Option.ite_none_right_eq_some.mp h
    cases h
    exact .serve hp
  | exit p =>
    cases h
    exact .exit
  | expire p =>
    cases h
    exact .expire _ fun path => hzk.expire s.z p path

/-- The two calls of `Create` with nothing in between. -/
theorem create_undisturbed {s : State Z ι} {p : ι} {c : Creation} {rest : List Creation}
    {data : Bytes} (hp : s.process p = .creating (c :: rest)) (hs : s.session p = true)
    (hrequest : s.request p = none) (hanswer : s.answer p = none) (hdata : c.data = some data) :
    run (step zk) s (if (zk.client p).zoo_exists s.z c.path = ZNONODE then
        [.zoo_exists p, .zoo_create p, .execute p, .answer p] else [.zoo_exists p]) =
      match Create (zk.client p) s.z c.path data c.state with
      | some z => some ({ s with z }.setProcess p (.creating rest))
      | none => some ({ s with
          z := ((zk.client p).zoo_create s.z c.path data c.state).1 }.setProcess p .exited) := by
  by_cases hflag : (zk.client p).zoo_exists s.z c.path = ZNONODE
  · have hasks : step zk s (.zoo_exists p) = some (s.setProcess p (.absent c rest)) := by
      rw [step, hp]
      simp only [hs, if_true, if_pos hflag]
    have hsends : step zk (s.setProcess p (.absent c rest)) (.zoo_create p) =
        some ({ s with request := update s.request p (some ⟨c.path, data, c.state⟩) }.setProcess p
          (.waiting c rest)) := by
      rw [step, State.setProcess_self]
      simp only [hdata, Option.map_some, State.setProcess, update_idem]
    rw [if_pos hflag, run_cons, hasks, Option.bind_some, run_cons, hsends, Option.bind_some,
      Create, if_pos hflag]
    -- the request comes and goes, and so does the answer
    have hrequest' : update s.request p none = s.request := by
      rw [← hrequest, update_eq_self]
    have hanswer' : update s.answer p none = s.answer := by
      rw [← hanswer, update_eq_self]
    by_cases hok : ((zk.client p).zoo_create s.z c.path data c.state).2 = ZOK
    · simp [run, step, State.setProcess, hs, hok, hrequest', hanswer']
    · simp [run, step, State.setProcess, hs, hok, hrequest', hanswer']
  · have hasks : step zk s (.zoo_exists p) = some (s.setProcess p (.creating rest)) := by
      rw [step, hp]
      simp only [hs, if_true, if_neg hflag]
    rw [if_neg hflag, run_cons, hasks, Option.bind_some, run_nil, Create, if_neg hflag]

/-! ## What a step changes -/

/-- What a process still has to create. -/
def Process.todo : Process → List Creation
  | .creating rest => rest
  | .absent c rest | .waiting c rest => c :: rest
  | .serving => []
  | .exited => []

/-- The process that makes the step, or whose request or session it is about. -/
def Action.actor : Action ι → ι
  | .zoo_exists p | .zoo_create p | .execute p | .answer p | .fails p | .serve p | .exit p
  | .expire p => p

theorem todo_setProcess {s : State Z ι} {p q : ι} {process : Process}
    (h : process.todo ⊆ (s.process p).todo) :
    ((s.setProcess p process).process q).todo ⊆ (s.process q).todo := by
  by_cases hq : q = p
  · subst hq
    rwa [State.setProcess_self]
  · rw [State.setProcess_of_ne s hq]
    exact List.Subset.refl _

/-- No process takes on new work. -/
theorem Step.todo_subset {s s' : State Z ι} {a : Action ι} (h : Step zk nodes s a s') (q : ι) :
    (s'.process q).todo ⊆ (s.process q).todo := by
  cases h with
  | found hp | skipped hp =>
    refine todo_setProcess ?_
    rw [hp]
    exact List.subset_cons_self _ _
  | missing hp | requested hp =>
    refine todo_setProcess (s := { s with request := _ }) ?_
    rw [hp]
    exact List.Subset.refl _
  | created_reply hp =>
    refine todo_setProcess (s := { s with answer := _ }) ?_
    rw [hp]
    exact List.subset_cons_self _ _
  | refused_reply | aborted | serve | exit =>
    exact todo_setProcess (s := { s with answer := _ }) (List.nil_subset _)
  | created | refused | expire => exact List.Subset.refl _

/-- The other processes stay where they are. -/
theorem Step.of_ne {s s' : State Z ι} {a : Action ι} (h : Step zk nodes s a s') {p : ι}
    (hp : p ≠ a.actor) : s'.process p = s.process p ∧ s'.request p = s.request p ∧
      s'.answer p = s.answer p := by
  cases h with
  | found | missing | skipped | aborted | serve | exit =>
    exact ⟨State.setProcess_of_ne s hp _, rfl, rfl⟩
  | requested =>
    exact ⟨State.setProcess_of_ne { s with request := _ } hp _, update_of_ne hp _ _, rfl⟩
  | created_reply | refused_reply =>
    exact ⟨State.setProcess_of_ne { s with answer := _ } hp _, rfl, update_of_ne hp _ _⟩
  | created | refused => exact ⟨rfl, update_of_ne hp _ _, update_of_ne hp _ _⟩
  | expire => exact ⟨rfl, rfl, rfl⟩

/-- A step leaves the nodes and the sessions alone, or makes the node of a request, or ends a
session. -/
theorem Step.nodes_cases {s s' : State Z ι} {a : Action ι} (h : Step zk nodes s a s') :
    (nodes s'.z = nodes s.z ∧ s'.session = s.session) ∨
    (∃ r, s.request a.actor = some r ∧ s.session a.actor = true ∧ nodes s.z r.path = none ∧
      s'.session = s.session ∧
      nodes s'.z = update (nodes s.z) r.path (some (.make a.actor r.data r.state))) ∨
    a = .expire a.actor ∧ s'.session = update s.session a.actor false ∧
      ∀ path, nodes s'.z path = (nodes s.z path).filter (·.ephemeralOwner ≠ some a.actor) := by
  cases h with
  | found | missing | requested | created_reply | refused_reply | skipped | aborted | serve
  | exit => exact Or.inl ⟨rfl, rfl⟩
  | refused z flag hr hs hrefused hflag hz => exact Or.inl ⟨hz, rfl⟩
  | created z hr hs hnode hz => exact Or.inr (Or.inl ⟨_, hr, hs, hnode, rfl, hz⟩)
  | expire z hz => exact Or.inr (Or.inr ⟨rfl, rfl, hz⟩)

/-! ## Every node is justified -/

variable {offer : ι → Offer T}

/-- What a process has to create, and what it has asked for, is on its list. -/
structure Listed (offer : ι → Offer T) (s : State Z ι) : Prop where
  todo : ∀ p, (s.process p).todo ⊆ (offer p).creations
  request : ∀ p r, s.request p = some r → ∃ c ∈ (offer p).creations, c.path = r.path ∧
    c.data = some r.data ∧ c.state = r.state

omit [DecidableEq ι] in
theorem listed_start (offer : ι → Offer T) (z : Z) : Listed offer (start offer z) where
  todo _ := List.Subset.refl _
  request _ _ h := by cases h

theorem Listed.step {s s' : State Z ι} {a : Action ι} (hl : Listed offer s)
    (h : Step zk nodes s a s') : Listed offer s' where
  todo p := List.Subset.trans (h.todo_subset p) (hl.todo p)
  request p r hr := by
    by_cases hp : p = a.actor
    · subst hp
      cases h with
      | @requested p c rest data hp hdata =>
        obtain rfl : (⟨c.path, data, c.state⟩ : Request) = r := by
          simpa [State.setProcess, Action.actor] using hr
        have hc : c ∈ (s.process p).todo := by
          rw [hp]
          exact List.mem_cons_self
        exact ⟨c, hl.todo p hc, rfl, hdata, rfl⟩
      | created | refused => simp [Action.actor] at hr
      | found | missing | created_reply | refused_reply | skipped | aborted | serve | exit
      | expire => exact hl.request _ r hr
    · rw [(h.of_ne hp).2.1] at hr
      exact hl.request p r hr

/-- What stands under the path was published by a process, and if it belongs to a session it
belongs to the session of that process, which has not ended. -/
structure Registered (offer : ι → Offer T) (nodes : Z → Bytes → Option (Node ι)) (path : Bytes)
    (s : State Z ι) : Prop where
  listed : Listed offer s
  node : ∀ {node}, nodes s.z path = some node → ∃ p c data, c ∈ (offer p).creations ∧
    c.path = path ∧ c.data = some data ∧ node = .make p data c.state ∧
    (c.state = ZOO_EPHEMERAL → s.session p = true)

omit [DecidableEq ι] in
theorem registered_start (offer : ι → Offer T) {path : Bytes} {z : Z} (hz : nodes z path = none) :
    Registered offer nodes path (start offer z) where
  listed := listed_start offer z
  node hnode := by
    rw [start, hz] at hnode
    cases hnode

theorem Registered.step {s s' : State Z ι} {a : Action ι} {path : Bytes}
    (hr : Registered offer nodes path s) (h : Step zk nodes s a s') :
    Registered offer nodes path s' where
  listed := hr.listed.step h
  node {node} hnode := by
    obtain ⟨hnodes, hsession⟩ | ⟨r, hreq, hp, -, hsession, hnodes⟩ | ⟨-, hsession, hnodes⟩ :=
      h.nodes_cases
    · rw [hnodes] at hnode
      rw [hsession]
      exact hr.node hnode
    · rw [hsession]
      rw [hnodes] at hnode
      by_cases hpath : path = r.path
      · subst hpath
        rw [update_self] at hnode
        cases hnode
        obtain ⟨c, hc, hpath, hdata, hstate⟩ := hr.listed.request _ r hreq
        exact ⟨a.actor, c, r.data, hc, hpath, hdata, by rw [hstate], fun _ => hp⟩
      · rw [update_of_ne hpath] at hnode
        exact hr.node hnode
    · rw [hnodes, Option.filter_eq_some_iff] at hnode
      obtain ⟨hold, howner⟩ := hnode
      obtain ⟨q, c, data, hc, hpath, hdata, rfl, hq⟩ := hr.node hold
      refine ⟨q, c, data, hc, hpath, hdata, rfl, fun hstate => ?_⟩
      -- an ephemeral node that is left belongs to another session
      have hne : q ≠ a.actor := by
        rintro rfl
        simp [Node.make, hstate] at howner
      rw [hsession, update_of_ne hne]
      exact hq hstate

theorem registered_of_reachable (hzk : zk.Documented nodes) {path : Bytes} {z : Z}
    (hz : nodes z path = none) {s : State Z ι}
    (hs : Reachable (ProviderRegistry.step zk) (start offer z) s) :
    Registered offer nodes path s :=
  reachable_invariant (fun _ _ _ hI hstep => hI.step (.of_step hzk hstep))
    (registered_start offer hz) hs

/-! ## Two providers of one service -/

/-- `userservice.cc` on one host, and the same on another port. -/
def twoProviders (p : Bool) : Offer MessageType where
  services := [UserService]
  ip := localhost
  port := if p then 8001 else 8000
  dotted := by decide +kernel
  proper := by decide +kernel

/-- A node is created. -/
def creates {ι : Type} (p : ι) : List (Action ι) :=
  [.zoo_exists p, .zoo_create p, .execute p, .answer p]

/-- The first provider creates its nodes, and the second one finds them. -/
def bothStart : List (Action Bool) :=
  creates false ++ creates false ++ creates false ++
    [.zoo_exists true, .zoo_exists true, .zoo_exists true, .serve true, .serve false]

/-- A server without nodes. -/
def noNodes {ι : Type} : Tree ι := fun _ => none

/-! ## Where clients are sent -/

/-- The address of a live provider of the method stands under its path. -/
def Offered (offer : ι → Offer T) (nodes : Z → Bytes → Option (Node ι)) (s : State Z ι)
    (method : MethodDescriptor T) (p : ι) : Prop :=
  (offer p).Publishes method ∧ s.session p = true ∧
    content nodes s.z (MprpcChannel.methodPath method) =
      some (addressText (offer p).ip (offer p).port)

omit [DecidableEq ι] in
theorem Registered.offered {s : State Z ι} {method : MethodDescriptor T}
    (hr : Registered offer nodes (MprpcChannel.methodPath method) s)
    (hname : ProperName method.name)
    (hnode : nodes s.z (MprpcChannel.methodPath method) ≠ none) :
    ∃ p, Offered offer nodes s method p := by
  obtain ⟨node, hnode⟩ := Option.ne_none_iff_exists'.mp hnode
  obtain ⟨p, c, data, hc, hpath, hdata, rfl, hp⟩ := hr.node hnode
  obtain ⟨hpub, haddress, hstate⟩ := (offer p).of_methodPath hname hc hpath
  refine ⟨p, hpub, hp hstate, ?_⟩
  rw [content, hnode, ← haddress, hdata]
  rfl

/-- **A client is only ever sent to a live provider of the method**: in every state that any
number of providers reach, `GetData` finds nothing, or the address of a process that publishes
the method and whose session has not ended. -/
theorem found_provider_is_registered (hzk : zk.Documented nodes) (offer : ι → Offer T) {z : Z}
    {s : State Z ι} (hs : Reachable (step zk) (start offer z) s) {method : MethodDescriptor T}
    (hservice : ProperName method.service) (hname : ProperName method.name)
    (hz : nodes z (MprpcChannel.methodPath method) = none) (me : ι) {buffer : Bytes}
    (hbuffer : buffer.length = sizeofBuffer) :
    GetData (zk.client me) s.z (c_str (MprpcChannel.methodPath method)) buffer = some [] ∨
      ∃ p, Offered offer nodes s method p ∧
        (Discovers (zk.client me) s.z method buffer (offer p).ip (offer p).port ↔
          Harmless (buffer.drop (addressText (offer p).ip (offer p).port).length)
            (offer p).port) := by
  have hpath := c_str_methodPath hservice hname
  by_cases hnode : nodes s.z (MprpcChannel.methodPath method) = none
  · refine Or.inl ?_
    rw [hpath, GetData]
    exact if_pos (hzk.get_missing me s.z _ buffer hnode)
  · obtain ⟨p, hp⟩ := (registered_of_reachable hzk hz hs).offered hname hnode
    refine Or.inr ⟨p, hp, ?_⟩
    have hcontent := hp.2.2
    rw [← hpath] at hcontent
    exact discovers_of_content (hzk.client me) (offer p).dotted hcontent hbuffer

theorem found_provider_is_registered_login : ∃ s,
    run (step (Tree.ensemble Bool)) (start twoProviders noNodes) bothStart = some s ∧
      (GetData ((Tree.ensemble Bool).client true) s.z (c_str (MprpcChannel.methodPath Login))
          (List.replicate 64 0) = some [] ∨
        ∃ p, Offered twoProviders Tree.get s Login p ∧
          (Discovers ((Tree.ensemble Bool).client true) s.z Login (List.replicate 64 0)
              (twoProviders p).ip (twoProviders p).port ↔
            Harmless ((List.replicate 64 0).drop
              (addressText (twoProviders p).ip (twoProviders p).port).length)
              (twoProviders p).port)) :=
  ⟨_, rfl, found_provider_is_registered Tree.documented_ensemble twoProviders (z := noNodes)
    ⟨bothStart, rfl⟩ (by decide) (by decide) rfl true rfl⟩

/-! ## Which methods are found -/

/-- What a process does with its list: an item leaves it when its node is there, when the process
ends, or when a call fails. In a `zoo_create` that has come through the node was there. -/
theorem Step.todo_cases {s s' : State Z ι} {a : Action ι} (h : Step zk nodes s a s') {p : ι}
    {c : Creation} (hc : c ∈ (s.process p).todo) :
    c ∈ (s'.process p).todo ∨ s'.process p = .exited ∨ nodes s'.z c.path ≠ none ∨
      a = .fails p ∨
        a = .answer p ∧ s.answer p = some ZOK ∧ ∃ rest, s.process p = .waiting c rest := by
  by_cases hactor : p = a.actor
  · subst hactor
    cases h with
    | found hp hs hnode =>
      rw [Action.actor, hp] at hc
      obtain rfl | hc := List.mem_cons.mp hc
      · exact Or.inr (Or.inr (Or.inl hnode))
      · refine Or.inl ?_
        rwa [Action.actor, State.setProcess_self]
    | missing hp =>
      rw [Action.actor, hp] at hc
      refine Or.inl ?_
      rwa [Action.actor, State.setProcess_self]
    | requested hp =>
      rw [Action.actor, hp] at hc
      refine Or.inl ?_
      rwa [Action.actor, State.setProcess_self]
    | created_reply hp ha =>
      have hc' := hc
      rw [Action.actor, hp] at hc'
      obtain rfl | hc' := List.mem_cons.mp hc'
      · exact Or.inr (Or.inr (Or.inr (Or.inr ⟨rfl, ha, _, hp⟩)))
      · refine Or.inl ?_
        rwa [Action.actor, State.setProcess_self]
    | skipped => exact Or.inr (Or.inr (Or.inr (Or.inl rfl)))
    | refused_reply | aborted | exit => exact Or.inr (Or.inl (State.setProcess_self _ _ _))
    | serve hp =>
      rw [Action.actor, hp] at hc
      cases hc
    | created | refused | expire => exact Or.inl hc
  · refine Or.inl ?_
    rwa [(h.of_ne hactor).1]

theorem Step.exited {s s' : State Z ι} {a : Action ι} (h : Step zk nodes s a s') {p : ι}
    (hp : s.process p = .exited) : s'.process p = .exited := by
  by_cases hactor : p = a.actor
  · subst hactor
    cases h with
    | exit => exact State.setProcess_self s _ _
    | created | refused | expire => exact hp
    | found hp' | missing hp' | requested hp' | created_reply hp' | refused_reply hp'
    | skipped hp' | serve hp' =>
      rw [Action.actor, hp'] at hp
      cases hp
    | aborted hp' =>
      rw [Action.actor] at hp
      obtain hp' | hp' := hp'
      all_goals
        rw [hp'] at hp
        cases hp
  · rw [(h.of_ne hactor).1, hp]

/-- A node under the path of a method goes only with the session of a provider of the method. -/
theorem Registered.node_stays {s s' : State Z ι} {a : Action ι} {method : MethodDescriptor T}
    (hr : Registered offer nodes (MprpcChannel.methodPath method) s) (h : Step zk nodes s a s')
    (hname : ProperName method.name) (hsession : ∀ q, (offer q).Publishes method → a ≠ .expire q)
    (hnode : nodes s.z (MprpcChannel.methodPath method) ≠ none) :
    nodes s'.z (MprpcChannel.methodPath method) ≠ none := by
  obtain ⟨hnodes, -⟩ | ⟨r, -, -, -, -, hnodes⟩ | ⟨ha, -, hnodes⟩ := h.nodes_cases
  · rwa [hnodes]
  · rw [hnodes]
    by_cases hpath : MprpcChannel.methodPath method = r.path
    · rw [hpath, update_self]
      exact Option.some_ne_none _
    · rwa [update_of_ne hpath]
  · obtain ⟨node, hnode⟩ := Option.ne_none_iff_exists'.mp hnode
    obtain ⟨p, c, data, hc, hpath, -, rfl, -⟩ := hr.node hnode
    obtain ⟨hpub, -, hstate⟩ := (offer p).of_methodPath hname hc hpath
    have hne : p ≠ a.actor := by
      rintro rfl
      exact hsession _ hpub ha
    have howner : (Node.make p data c.state).ephemeralOwner ≠ some a.actor := by
      rw [Node.make, if_pos hstate]
      exact fun heq => hne (Option.some.inj heq)
    rw [hnodes, hnode, Option.filter_some, if_pos (decide_eq_true howner)]
    exact Option.some_ne_none _

/-- A process has a request or an answer on its way only while it waits for it, or has ended. -/
def Linked (s : State Z ι) (p : ι) : Prop :=
  match s.process p with
  | .waiting c _ => (∃ data, c.data = some data ∧ s.request p = some ⟨c.path, data, c.state⟩ ∧
      s.answer p = none) ∨ s.request p = none ∧ s.answer p ≠ none
  | .exited => True
  | .creating _ | .absent _ _ | .serving => s.request p = none ∧ s.answer p = none

theorem Linked.step {s s' : State Z ι} {a : Action ι} {p : ι} (hl : Linked s p)
    (h : Step zk nodes s a s') : Linked s' p := by
  unfold Linked at hl ⊢
  by_cases hactor : p = a.actor
  · subst hactor
    cases h with
    | found hp | missing hp | skipped hp | serve hp =>
      rw [Action.actor, hp] at hl
      rw [Action.actor, State.setProcess_self]
      exact hl
    | requested hp hdata =>
      rw [Action.actor, hp] at hl
      rw [Action.actor, State.setProcess_self]
      exact Or.inl ⟨_, hdata, update_self _ _ _, hl.2⟩
    | created z hr | refused z flag hr =>
      rw [Action.actor] at hl ⊢
      dsimp only
      split at hl
      · exact Or.inr ⟨update_self _ _ _, by simp⟩
      · trivial
      all_goals
        rw [hl.1] at hr
        cases hr
    | created_reply hp ha =>
      rw [Action.actor, hp] at hl
      rw [Action.actor, State.setProcess_self]
      obtain ⟨_, -, -, hnone⟩ | ⟨hrequest, -⟩ := hl
      · rw [hnone] at ha
        cases ha
      · exact ⟨hrequest, update_self _ _ _⟩
    | refused_reply | aborted | exit =>
      rw [Action.actor, State.setProcess_self]
      trivial
    | expire => exact hl
  · obtain ⟨hprocess, hrequest, hanswer⟩ := h.of_ne hactor
    rw [hprocess, hrequest, hanswer]
    exact hl

/-- The process has ended, or it has still to create the node, or the node is there. -/
structure Underway (nodes : Z → Bytes → Option (Node ι)) (p : ι) (path : Bytes) (s : State Z ι) :
    Prop where
  linked : Linked s p
  node : s.process p = .exited ∨ (∃ c ∈ (s.process p).todo, c.path = path) ∨
    nodes s.z path ≠ none
  answered : ∀ c rest, s.process p = .waiting c rest → s.answer p = some ZOK → c.path = path →
    nodes s.z path ≠ none

theorem Underway.step {s s' : State Z ι} {a : Action ι} {method : MethodDescriptor T} {p : ι}
    (hp : Underway nodes p (MprpcChannel.methodPath method) s)
    (hr : Registered offer nodes (MprpcChannel.methodPath method) s) (h : Step zk nodes s a s')
    (hname : ProperName method.name) (hlookup : a ≠ .fails p)
    (hsession : ∀ q, (offer q).Publishes method → a ≠ .expire q) :
    Underway nodes p (MprpcChannel.methodPath method) s' := by
  have hstays := hr.node_stays h hname hsession
  refine ⟨hp.linked.step h, ?_, fun c rest hwaiting hanswer hpath => ?_⟩
  · obtain hexit | ⟨c, hc, hpath⟩ | hnode := hp.node
    · exact Or.inl (h.exited hexit)
    · obtain hrest | hexit | hnode | hfails | ⟨-, hanswer, rest, hwaiting⟩ := h.todo_cases hc
      · exact Or.inr (Or.inl ⟨c, hrest, hpath⟩)
      · exact Or.inl hexit
      · exact Or.inr (Or.inr (hpath ▸ hnode))
      · exact absurd hfails hlookup
      · exact Or.inr (Or.inr (hstays (hp.answered c rest hwaiting hanswer hpath)))
    · exact Or.inr (Or.inr (hstays hnode))
  · by_cases hactor : p = a.actor
    · subst hactor
      have hlinked := hp.linked
      unfold Linked at hlinked
      cases h with
      | created z hreq hs hnode hz =>
        -- the request is the one for the node that the process waits for
        rw [Action.actor] at hlinked hwaiting
        rw [hwaiting] at hlinked
        obtain ⟨data, -, hrequest, -⟩ | ⟨hnone, -⟩ := hlinked
        · rw [hrequest] at hreq
          cases hreq
          rw [hz, ← hpath, update_self]
          exact Option.some_ne_none _
        · rw [hnone] at hreq
          cases hreq
      | refused z flag hreq hs hrefused hflag hz =>
        exact absurd (by simpa [Action.actor] using hanswer) hflag
      | requested hp' =>
        rw [Action.actor, hp'] at hlinked
        have hnone : s.answer _ = some ZOK := hanswer
        rw [Action.actor, hlinked.2] at hnone
        cases hnone
      | expire => exact hstays (hp.answered c rest hwaiting hanswer hpath)
      | found | missing | created_reply | refused_reply | skipped | aborted | serve | exit =>
        rw [Action.actor, State.setProcess_self] at hwaiting
        cases hwaiting
    · obtain ⟨hprocess, -, hanswer'⟩ := h.of_ne hactor
      rw [hprocess] at hwaiting
      rw [hanswer'] at hanswer
      exact hstays (hp.answered c rest hwaiting hanswer hpath)

/-- **Every method of a provider that serves is found** at the address of a live provider of the
method, unless a lookup of this provider has failed or the session of a provider of the method has
ended. -/
theorem served_method_is_found (hzk : zk.Documented nodes) (offer : ι → Offer T) {z : Z}
    {as : List (Action ι)} {s : State Z ι} {p : ι}
    (hrun : run (step zk) (start offer z) as = some s) (hp : s.process p = .serving)
    {method : MethodDescriptor T}
    (hservice : ProperName method.service) (hname : ProperName method.name)
    (hz : nodes z (MprpcChannel.methodPath method) = none) (hpub : (offer p).Publishes method)
    (hlookup : .fails p ∉ as)
    (hsession : ∀ q, (offer q).Publishes method → .expire q ∉ as) :
    ∃ q, Offered offer nodes s method q := by
  obtain ⟨c, hc, hpath⟩ := (offer p).exists_creation hpub
  rw [c_str_methodPath hservice hname] at hpath
  have hguard : Guarded (step zk) (fun _ a => a ≠ .fails p ∧
      ∀ q, (offer q).Publishes method → a ≠ .expire q) (start offer z) as := by
    refine guarded_of_forall_mem (fun a ha _ => ⟨?_, fun q hq => ?_⟩) _
    · rintro rfl
      exact hlookup ha
    · rintro rfl
      exact hsession q hq ha
  have hstart : Underway nodes p (MprpcChannel.methodPath method) (start offer z) :=
    ⟨⟨rfl, rfl⟩, Or.inr (Or.inl ⟨c, hc, hpath⟩), fun _ _ h => by cases h⟩
  obtain ⟨hr, hunderway⟩ := run_invariant
    (I := fun s => Registered offer nodes (MprpcChannel.methodPath method) s ∧
      Underway nodes p (MprpcChannel.methodPath method) s)
    (fun s a s' hI ha hstep => ⟨hI.1.step (.of_step hzk hstep),
      hI.2.step hI.1 (.of_step hzk hstep) hname ha.1 ha.2⟩)
    ⟨registered_start offer hz, hstart⟩ hguard hrun
  obtain hexit | ⟨c, hc, -⟩ | hnode := hunderway.node
  · rw [hp] at hexit
    cases hexit
  · rw [hp] at hc
    cases hc
  · exact hr.offered hname hnode

theorem twoProviders_publish (p : Bool) : (twoProviders p).Publishes Login :=
  ⟨UserService, Login, _, rfl, rfl, rfl⟩

/-- The second provider has only found the nodes of the first one. -/
theorem served_method_is_found_second : ∃ s,
    run (step (Tree.ensemble Bool)) (start twoProviders noNodes) bothStart = some s ∧
      ∃ q, Offered twoProviders Tree.get s Login q :=
  ⟨_, rfl, served_method_is_found Tree.documented_ensemble twoProviders
    (rfl : run (step (Tree.ensemble Bool)) (start twoProviders noNodes) bothStart = some _)
    (p := true) rfl (by decide) (by decide) rfl (twoProviders_publish true) (by decide)
    fun q _ => by cases q <;> decide⟩

/-- **A method that is lost is lost for good**: when its node is missing, every provider of the
method serves or has ended, and no request for the node is on its way in a session that lasts, no
run brings it back. -/
theorem lost_for_good (hzk : zk.Documented nodes) (offer : ι → Offer T) {z : Z} {s s' : State Z ι}
    (hs : Reachable (step zk) (start offer z) s) {method : MethodDescriptor T}
    (hname : ProperName method.name)
    (hlost : nodes s.z (MprpcChannel.methodPath method) = none)
    (hdone : ∀ p, (offer p).Publishes method → s.process p = .serving ∨ s.process p = .exited)
    (hflight : ∀ p r, s.request p = some r → r.path = MprpcChannel.methodPath method →
      s.session p = false)
    (hs' : Reachable (step zk) s s') : nodes s'.z (MprpcChannel.methodPath method) = none := by
  have hlisted : Listed offer s :=
    reachable_invariant (fun _ _ _ hI hstep => hI.step (.of_step hzk hstep))
      (listed_start offer z) hs
  have hidle : ∀ p, (offer p).Publishes method → (s.process p).todo = [] := by
    intro p hp
    obtain hserving | hexited := hdone p hp
    · rw [hserving]
      rfl
    · rw [hexited]
      rfl
  refine (reachable_invariant (I := fun s => Listed offer s ∧
    nodes s.z (MprpcChannel.methodPath method) = none ∧
      (∀ p, (offer p).Publishes method → (s.process p).todo = []) ∧
      ∀ p r, s.request p = some r → r.path = MprpcChannel.methodPath method →
        s.session p = false) ?_ ⟨hlisted, hlost, hidle, hflight⟩ hs').2.1
  rintro s a s' ⟨hI, hnode, htodo, hrequest⟩ hstep
  have h := Step.of_step hzk hstep
  refine ⟨hI.step h, ?_, fun p hp => ?_, fun p r hr hpath => ?_⟩
  · obtain ⟨hnodes, -⟩ | ⟨r, hr, hp, -, -, hnodes⟩ | ⟨-, -, hnodes⟩ := h.nodes_cases
    · rw [hnodes, hnode]
    · have hpath : MprpcChannel.methodPath method ≠ r.path := by
        intro heq
        have hended := hrequest _ r hr heq.symm
        rw [hp] at hended
        cases hended
      rw [hnodes, update_of_ne hpath, hnode]
    · rw [hnodes, hnode]
      rfl
  · exact List.subset_nil.mp (htodo p hp ▸ h.todo_subset p)
  · -- nobody who publishes the method has anything left to ask for
    by_cases hactor : p = a.actor
    · subst hactor
      cases h with
      | @requested p c rest data hp hdata =>
        obtain rfl : (⟨c.path, data, c.state⟩ : Request) = r := by
          simpa [State.setProcess, Action.actor] using hr
        have hc : c ∈ (s.process p).todo := by
          rw [hp]
          exact List.mem_cons_self
        have hpub := ((offer p).of_methodPath hname (hI.todo p hc) hpath).1
        rw [htodo p hpub] at hc
        cases hc
      | created | refused => simp [Action.actor] at hr
      | expire => exact update_self _ _ _
      | found | missing | created_reply | refused_reply | skipped | aborted | serve | exit =>
        exact hrequest _ r hr hpath
    · rw [(h.of_ne hactor).2.1] at hr
      have hended := hrequest p r hr hpath
      obtain ⟨-, hsession⟩ | ⟨_, -, -, -, hsession, -⟩ | ⟨-, hsession, -⟩ := h.nodes_cases
      · rw [hsession, hended]
      · rw [hsession, hended]
      · rw [hsession, update_of_ne hactor, hended]

/-- The session of the first provider ends, and the second one serves on without being found. -/
theorem lost_for_good_second : ∃ s s',
    run (step (Tree.ensemble Bool)) (start twoProviders noNodes) (bothStart ++ [.expire false]) =
      some s ∧ s.process true = .serving ∧ s.session true = true ∧
      run (step (Tree.ensemble Bool)) s [.exit false] = some s' ∧
      Tree.get s'.z (MprpcChannel.methodPath Login) = none :=
  ⟨_, _, rfl, rfl, rfl, rfl, lost_for_good Tree.documented_ensemble twoProviders (z := noNodes)
    ⟨bothStart ++ [.expire false], rfl⟩ (by decide) rfl
    (fun p _ => by
      cases p with
      | false => exact Or.inl rfl
      | true => exact Or.inl rfl)
    (fun p r hr => by
      cases p with
      | false => cases hr
      | true => cases hr) ⟨[.exit false], rfl⟩⟩

end ProviderRegistry

end CppInOne.Mprpc
