import CppInOne.Mprpc.ProviderOffer

/-!
# A zookeeper server

The nodes of one server, as several sessions see them. The server and the client library are not
part of the repository: they are a parameter, with what their documentation promises.

## Main definitions

- `Ensemble`, `Ensemble.Documented` — the server, and what its documentation promises
- `Tree.ensemble` — a server in memory
-/

namespace CppInOne.Mprpc
open ByteString Function

/-- A node, and the session it belongs to if it is ephemeral. `ι` are the sessions, one for each
provider process. -/
structure Node (ι : Type*) where
  data : Bytes
  ephemeralOwner : Option ι
  deriving DecidableEq, Repr

/-- The node that a `zoo_create` in the session `me` is to make. -/
def Node.make {ι : Type*} (me : ι) (data : Bytes) (state : Int) : Node ι where
  data
  ephemeralOwner := if state = ZOO_EPHEMERAL then some me else none

/-- The server `Z` with the functions of the library in each session, and the end of a session. -/
structure Ensemble (Z ι : Type*) where
  client : ι → Zookeeper Z
  expire : Z → ι → Z

/-- What the documentation of zookeeper says about the nodes of one server: `zoo_create` makes a
node that was not there or changes nothing, it makes every new node of moderate size whose parent
is there and stays, and the end of a session takes its ephemeral nodes away. -/
structure Ensemble.Documented {Z ι : Type*} [DecidableEq ι] (zk : Ensemble Z ι)
    (nodes : Z → Bytes → Option (Node ι)) : Prop where
  exists_iff : ∀ me z path, (zk.client me).zoo_exists z path = ZNONODE ↔ nodes z path = none
  create_ok : ∀ me z path data state, ((zk.client me).zoo_create z path data state).2 = ZOK →
    nodes z path = none ∧ nodes ((zk.client me).zoo_create z path data state).1 =
      update (nodes z) path (some (.make me data state))
  create_error : ∀ me z path data state, ((zk.client me).zoo_create z path data state).2 ≠ ZOK →
    nodes ((zk.client me).zoo_create z path data state).1 = nodes z
  create_new : ∀ me z path name data state, ProperName name →
    (path ++ ascii "/" ++ name ++ data).length < 2 ^ 19 →
    (path = [] ∨ ∃ node, nodes z path = some node ∧ node.ephemeralOwner = none) →
    nodes z (path ++ ascii "/" ++ name) = none →
    ((zk.client me).zoo_create z (path ++ ascii "/" ++ name) data state).2 = ZOK
  get : ∀ me z path node buffer, nodes z path = some node →
    (zk.client me).zoo_get z path buffer = (copy node.data buffer buffer.length, ZOK)
  get_missing : ∀ me z path buffer, nodes z path = none →
    ((zk.client me).zoo_get z path buffer).2 ≠ ZOK
  expire : ∀ z me path, nodes (zk.expire z me) path =
    (nodes z path).filter (·.ephemeralOwner ≠ some me)

variable {Z ι : Type*} [DecidableEq ι] {zk : Ensemble Z ι} {nodes : Z → Bytes → Option (Node ι)}

/-- The bytes in the nodes. -/
def content (nodes : Z → Bytes → Option (Node ι)) (z : Z) (path : Bytes) : Option Bytes :=
  (nodes z path).map Node.data

/-- What one session sees is what `Create` and `GetData` rely on. -/
theorem Ensemble.Documented.client (hzk : zk.Documented nodes) (me : ι) :
    (zk.client me).Documented (content nodes) where
  exists_iff z path := by
    rw [content, Option.map_eq_none_iff]
    exact hzk.exists_iff me z path
  create z path data state hok := by
    obtain ⟨-, hnodes⟩ := hzk.create_ok me z path data state hok
    funext other
    rw [content, hnodes]
    by_cases heq : other = path
    · subst heq
      rw [update_self, update_self]
      rfl
    · rw [update_of_ne heq, update_of_ne heq, content]
  get z path data buffer hdata := by
    obtain ⟨node, hnode, rfl⟩ := Option.map_eq_some_iff.mp hdata
    exact hzk.get me z path node buffer hnode

/-! ### A server in memory -/

/-- The nodes below the root, by their paths. -/
abbrev Tree (ι : Type*) := Bytes → Option (Node ι)

namespace Tree

def get (tree : Tree ι) (path : Bytes) : Option (Node ι) := tree path

def ZNODEEXISTS : Int := -110

def ZNOCHILDRENFOREPHEMERALS : Int := -108

def zoo_create (me : ι) (tree : Tree ι) (path data : Bytes) (state : Int) : Tree ι × Int :=
  if parent path ≠ [] ∧ tree (parent path) = none then (tree, ZNONODE)
  else if (tree path).isSome then (tree, ZNODEEXISTS)
  else if parent path ≠ [] ∧ (tree (parent path)).any (·.ephemeralOwner.isSome) then
    (tree, ZNOCHILDRENFOREPHEMERALS)
  else (update tree path (some (.make me data state)), ZOK)

def ensemble (ι : Type*) [DecidableEq ι] : Ensemble (Tree ι) ι where
  client me :=
    { zoo_exists := fun tree path => if tree path = none then ZNONODE else ZOK
      zoo_create := zoo_create me
      zoo_get := fun tree path buffer =>
        match tree path with
        | some node => (copy node.data buffer buffer.length, ZOK)
        | none => (buffer, ZNONODE) }
  expire tree me := fun path => (tree path).filter (·.ephemeralOwner ≠ some me)

omit [DecidableEq ι] in
theorem zoo_create_cases (me : ι) (tree : Tree ι) (path data : Bytes) (state : Int) :
    ((zoo_create me tree path data state).2 ≠ ZOK ∧
      (zoo_create me tree path data state).1 = tree) ∨
    (tree path = none ∧ zoo_create me tree path data state =
      (update tree path (some (.make me data state)), ZOK)) := by
  have hnonode : ZNONODE ≠ ZOK := by decide
  have hexists : ZNODEEXISTS ≠ ZOK := by decide
  have hephemeral : ZNOCHILDRENFOREPHEMERALS ≠ ZOK := by decide
  rw [zoo_create]
  split
  · exact Or.inl ⟨hnonode, rfl⟩
  · split
    · exact Or.inl ⟨hexists, rfl⟩
    · rename_i hnew
      split
      · exact Or.inl ⟨hephemeral, rfl⟩
      · exact Or.inr ⟨by simpa using hnew, rfl⟩

theorem documented_ensemble : (ensemble ι).Documented get where
  exists_iff me tree path := by
    change (if tree path = none then ZNONODE else ZOK) = ZNONODE ↔ tree path = none
    split
    · next hnone => exact iff_of_true rfl hnone
    · next hsome => exact iff_of_false (by decide) hsome
  create_ok me tree path data state hok := by
    obtain ⟨hflag, -⟩ | ⟨hnew, heq⟩ := zoo_create_cases me tree path data state
    · exact absurd hok hflag
    · exact ⟨hnew, congrArg Prod.fst heq⟩
  create_error me tree path data state herror := by
    obtain ⟨-, htree⟩ | ⟨-, heq⟩ := zoo_create_cases me tree path data state
    · exact htree
    · exact absurd (congrArg Prod.snd heq) herror
  create_new me tree path name data state hname _ hparent hnew := by
    change (zoo_create me tree (path ++ ascii "/" ++ name) data state).2 = ZOK
    have hup := parent_append hname path
    generalize path ++ ascii "/" ++ name = full at hnew hup ⊢
    rw [get] at hnew
    obtain rfl | ⟨node, hnode, howner⟩ := hparent
    · simp [zoo_create, hup, hnew]
    · rw [get] at hnode
      simp [zoo_create, hup, hnew, hnode, howner]
  get me tree path node buffer hnode := by
    change (match tree path with
      | some node => (copy node.data buffer buffer.length, ZOK)
      | none => (buffer, ZNONODE)) = _
    rw [get] at hnode
    rw [hnode]
  get_missing me tree path buffer hnone := by
    change (match tree path with
      | some node => (copy node.data buffer buffer.length, ZOK)
      | none => (buffer, ZNONODE)).2 ≠ ZOK
    rw [get] at hnone
    rw [hnone]
    exact (by decide : ZNONODE ≠ ZOK)
  expire tree me path := rfl

end Tree

end CppInOne.Mprpc
