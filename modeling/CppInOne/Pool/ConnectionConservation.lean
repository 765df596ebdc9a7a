import Mathlib.Algebra.Group.Int.Defs
import Mathlib.Data.List.Perm.Basic
import CppInOne.Pool.ConnectionPool

/-!
# The connection pool conserves connections

Every connection that has been constructed and not destroyed is in one place: once in the
queue, or in the hands of one client. The counter counts them.

## Main definitions

- `Conserved` — the invariant

## Main results

- `connections_conserved` — it holds in every reachable state
-/

namespace CppInOne.ConnectionPool
open Function Transition State

variable {C : Type*}

/-- Where the connections are, by their numbers. -/
def ids (s : State C) : List Nat :=
  s._connectionQue.map (·.id) ++ s.held.map (·.2.id)

structure Conserved (s : State C) : Prop where
  count : s._connectionCnt.toInt = (ids s).length
  bound : s._connectionCnt.toInt ≤ max s._initSize.toInt s._maxSize.toInt
  nodup : (ids s).Nodup
  fresh : ∀ i ∈ ids s, i < s.created
  dead : ∀ i ∈ s.destroyed, i < s.created ∧ i ∉ ids s

variable {s s' : State C} {now : Int}

theorem toInt_add_one {x : Int32} (h : x.toInt < 2 ^ 31 - 1) : (x + 1).toInt = x.toInt + 1 := by
  rw [Int32.toInt_add]
  have hle := x.le_toInt
  exact Int.bmod_eq_of_le (by simp; omega) (by simp; omega)

theorem toInt_sub_one {x : Int32} (h : -2 ^ 31 < x.toInt) : (x - 1).toInt = x.toInt - 1 := by
  rw [Int32.toInt_sub]
  have hlt := x.toInt_lt
  exact Int.bmod_eq_of_le (by simp; omega) (by simp; omega)

/-- Connections that only change places are conserved. -/
theorem Conserved.perm (h : Conserved s) (hids : (ids s').Perm (ids s))
    (hcount : s'._connectionCnt = s._connectionCnt) (hinit : s'._initSize = s._initSize)
    (hmax : s'._maxSize = s._maxSize) (hcreated : s'.created = s.created)
    (hdestroyed : s'.destroyed = s.destroyed) : Conserved s' := by
  refine ⟨?_, ?_, hids.nodup_iff.mpr h.nodup, fun i hi => ?_, fun i hi => ?_⟩
  · rw [hcount, hids.length_eq]
    exact h.count
  · rw [hcount, hinit, hmax]
    exact h.bound
  · rw [hcreated]
    exact h.fresh i (hids.mem_iff.mp hi)
  · rw [hcreated, hids.mem_iff]
    exact h.dead i (hdestroyed ▸ hi)

/-- The new connection is counted as long as there is room below the bound. -/
theorem Conserved.addConnection (h : Conserved s)
    (hroom : s._connectionCnt.toInt < max s._initSize.toInt s._maxSize.toInt) :
    Conserved (s.addConnection now) := by
  have hids : (ids (s.addConnection now)).Perm (s.created :: ids s) := by
    simp only [ids, State.addConnection, List.map_append, List.map_cons, List.map_nil,
      List.append_assoc]
    exact List.perm_middle
  have hlimit : s._connectionCnt.toInt < 2 ^ 31 - 1 := by
    have hinit := s._initSize.toInt_lt
    have hmax := s._maxSize.toInt_lt
    omega
  have hcount : (s.addConnection now)._connectionCnt.toInt = s._connectionCnt.toInt + 1 :=
    toInt_add_one hlimit
  have hnew : s.created ∉ ids s := fun hmem => absurd (h.fresh _ hmem) (Nat.lt_irrefl _)
  refine ⟨?_, ?_, ?_, fun i hi => ?_, fun i hi => ?_⟩
  · rw [hcount, hids.length_eq, h.count]
    simp
  · rw [hcount]
    exact hroom
  · exact hids.nodup_iff.mpr (List.nodup_cons.mpr ⟨hnew, h.nodup⟩)
  · show i < s.created + 1
    obtain rfl | hi := List.mem_cons.mp (hids.mem_iff.mp hi)
    · exact Nat.lt_succ_self _
    · exact Nat.lt_succ_of_lt (h.fresh i hi)
  · obtain ⟨hlt, hnotMem⟩ := h.dead i hi
    refine ⟨Nat.lt_succ_of_lt hlt, fun hmem => ?_⟩
    obtain rfl | hmem := List.mem_cons.mp (hids.mem_iff.mp hmem)
    · exact absurd hlt (Nat.lt_irrefl _)
    · exact hnotMem hmem

/-- The configuration of the pool. -/
def config (s : State C) : Int32 × Int32 := (s._initSize, s._maxSize)

/-- A connection at the front of the queue is destroyed. -/
theorem Conserved.destroy {p : Connection} {rest : List Connection} (h : Conserved s)
    (hqueue : s._connectionQue = p :: rest) :
    Conserved (s.destroyFront p rest now) := by
  have hids : ids s = p.id :: (rest.map (·.id) ++ s.held.map (·.2.id)) := by
    rw [ids, hqueue]
    rfl
  have hnodup := h.nodup
  rw [hids, List.nodup_cons] at hnodup
  have hpos : 0 < s._connectionCnt.toInt := by
    rw [h.count, hids, List.length_cons]
    omega
  have hcount : (s._connectionCnt - 1).toInt = s._connectionCnt.toInt - 1 :=
    toInt_sub_one (by omega)
  have hold : ∀ i ∈ rest.map (·.id) ++ s.held.map (·.2.id), i ∈ ids s := by
    intro i hi
    rw [hids]
    exact List.mem_cons_of_mem _ hi
  refine ⟨?_, ?_, hnodup.2, fun i hi => h.fresh i (hold i hi), fun i hi => ?_⟩
  · show (s._connectionCnt - 1).toInt = ((rest.map (·.id) ++ s.held.map (·.2.id)).length : Int)
    rw [hcount, h.count, hids, List.length_cons]
    omega
  · show (s._connectionCnt - 1).toInt ≤ max s._initSize.toInt s._maxSize.toInt
    have hbound := h.bound
    omega
  · obtain rfl | hi := List.mem_cons.mp hi
    · refine ⟨h.fresh p.id ?_, hnodup.1⟩
      rw [hids]
      exact List.mem_cons_self
    · obtain ⟨hlt, hnotMem⟩ := h.dead i hi
      exact ⟨hlt, fun hmem => hnotMem (hold i hmem)⟩

theorem Conserved.scan (h : Conserved s) (readings : List Int)
    (hs : s.scannerConnectionTask readings = some s') :
    Conserved s' ∧ config s' = config s := by
  refine scan_invariant (P := fun t => Conserved t ∧ config t = config s) ?_ ?_ ⟨h, rfl⟩ hs
  · rintro t p rest now hqueue ⟨hconserved, hconfig⟩
    exact ⟨hconserved.destroy hqueue, hconfig⟩
  · rintro t now ⟨hconserved, hconfig⟩
    exact ⟨hconserved.perm (.refl _) rfl rfl rfl rfl rfl, hconfig⟩

theorem Conserved.produce (h : Conserved s) :
    Conserved (s.produceConnectionTask now) ∧
      config (s.produceConnectionTask now) = config s := by
  simp only [produceConnectionTask]
  split
  · exact ⟨h.perm (.refl _) rfl rfl rfl rfl rfl, rfl⟩
  · split
    · rename_i hroom
      have hlt : s._connectionCnt.toInt < s._maxSize.toInt := Int32.lt_iff_toInt_lt.mp hroom
      have hadded : Conserved (s.addConnection now) := h.addConnection (by omega)
      exact ⟨hadded.perm (.refl _) rfl rfl rfl rfl rfl, rfl⟩
    · exact ⟨h.perm (.refl _) rfl rfl rfl rfl rfl, rfl⟩

theorem conserved_constructed {initSize maxSize maxIdleTime : Int32} {readings : Nat → Int}
    (hinit : 0 ≤ initSize) : Conserved (constructed C initSize maxSize maxIdleTime readings) ∧
      config (constructed C initSize maxSize maxIdleTime readings) = (initSize, maxSize) := by
  have hpos : 0 ≤ initSize.toInt := Int32.le_iff_toInt_le.mp hinit
  suffices h : Conserved (constructed C initSize maxSize maxIdleTime readings) ∧
      config (constructed C initSize maxSize maxIdleTime readings) = (initSize, maxSize) ∧
      (constructed C initSize maxSize maxIdleTime readings)._connectionCnt.toInt =
        initSize.toInt.toNat from ⟨h.1, h.2.1⟩
  refine constructed_induction (P := fun n s =>
    Conserved s ∧ config s = (initSize, maxSize) ∧ s._connectionCnt.toInt = n) ?_ ?_
  · refine ⟨⟨rfl, ?_, List.nodup_nil, by simp [ids], by simp⟩, rfl, rfl⟩
    show (0 : Int) ≤ max initSize.toInt maxSize.toInt
    omega
  · rintro n hn s ⟨hconserved, hconfig, hcount⟩
    obtain ⟨hi, hm⟩ := Prod.mk.inj hconfig
    refine ⟨hconserved.addConnection ?_, hconfig, ?_⟩
    · rw [hi]
      omega
    · have hlimit := initSize.toInt_lt
      have hadd : (s._connectionCnt + 1).toInt = s._connectionCnt.toInt + 1 :=
        toInt_add_one (by omega)
      show (s._connectionCnt + 1).toInt = ((n + 1 : Nat) : Int)
      omega

variable [DecidableEq C]

theorem Conserved.client (h : Conserved s) (c : C) :
    Conserved (s.getConnection c).1 ∧ config (s.getConnection c).1 = config s := by
  simp only [getConnection]
  split
  · split
    · exact ⟨h.perm (.refl _) rfl rfl rfl rfl rfl, rfl⟩
    · exact ⟨h.perm (.refl _) rfl rfl rfl rfl rfl, rfl⟩
  · rename_i p rest hqueue
    refine ⟨h.perm ?_ rfl rfl rfl rfl rfl, rfl⟩
    show (rest.map (·.id) ++ p.id :: s.held.map (·.2.id)).Perm (ids s)
    rw [ids, hqueue]
    exact List.perm_middle

theorem Conserved.release {c : C} {p : Connection} (h : Conserved s) (hp : (c, p) ∈ s.held) :
    Conserved (s.deleter c p now) := by
  refine h.perm ?_ rfl rfl rfl rfl rfl
  have hheld := (List.perm_cons_erase hp).map fun x => x.2.id
  have hids : ids (s.deleter c p now) =
      s._connectionQue.map (·.id) ++ p.id :: (s.held.erase (c, p)).map (·.2.id) := by
    simp [ids, deleter]
  rw [hids]
  exact hheld.symm.append_left _

/-- **Step lemma**: every section conserves the connections. -/
theorem Conserved.step (h : Conserved s) (a : Action C) (hs : step s a = some s') :
    Conserved s' ∧ config s' = config s := by
  cases step_cases hs with
  | produce now => exact h.produce
  | @client c => exact h.client c
  | release now hheld => exact ⟨h.release hheld, rfl⟩
  | @scan readings _ hs => exact h.scan readings hs
  | timeout | producerWakes | clientWakes =>
    exact ⟨h.perm (.refl _) rfl rfl rfl rfl rfl, rfl⟩

/-- **The pool conserves connections.** The counter is the number of connections in the queue and
in the hands of clients, it keeps its bound, no connection is in two places or used after its
destruction, and a client gets no connection only when the queue is empty. -/
theorem connections_conserved {initSize maxSize maxIdleTime : Int32} {readings : Nat → Int}
    (hinit : 0 ≤ initSize)
    (hs : Reachable step (constructed C initSize maxSize maxIdleTime readings) s) :
    s._connectionCnt.toInt = s._connectionQue.length + s.held.length ∧
      s._connectionCnt.toInt ≤ max initSize.toInt maxSize.toInt ∧
      (s._connectionQue.map (·.id) ++ s.held.map (·.2.id)).Nodup ∧
      (∀ p ∈ s._connectionQue, p.id ∉ s.destroyed) ∧ (∀ x ∈ s.held, x.2.id ∉ s.destroyed) ∧
      ∀ c, (step s (.client c)).isSome = true → (s.getConnection c).2 = some none →
        s._connectionQue = [] := by
  obtain ⟨hconserved, hconfig⟩ : Conserved s ∧ config s = (initSize, maxSize) := by
    refine reachable_invariant (I := fun s => Conserved s ∧ config s = (initSize, maxSize))
      (fun s a s' h hs => ?_) (conserved_constructed hinit) hs
    obtain ⟨hconserved, hsame⟩ := h.1.step a hs
    exact ⟨hconserved, hsame.trans h.2⟩
  obtain ⟨hi, hm⟩ := Prod.mk.inj hconfig
  refine ⟨?_, ?_, hconserved.nodup, fun p hp hmem => ?_, fun x hx hmem => ?_, fun c _ hnone => ?_⟩
  · rw [hconserved.count, ids, List.length_append, List.length_map, List.length_map]
    rfl
  · rw [← hi, ← hm]
    exact hconserved.bound
  · refine (hconserved.dead _ hmem).2 (List.mem_append_left _ ?_)
    exact List.mem_map.mpr ⟨p, hp, rfl⟩
  · refine (hconserved.dead _ hmem).2 (List.mem_append_right _ ?_)
    exact List.mem_map.mpr ⟨x, hx, rfl⟩
  · simp only [getConnection] at hnone
    split at hnone
    · assumption
    · cases hnone

/-- A second client waits until the pool has grown, and the scanner destroys a connection that has
come back. -/
def busy : List (Action Bool) :=
  [.client true, .client false, .produce 5, .client false, .release true ⟨0, 1⟩ 9,
    .scan [61010], .release false ⟨1, 5⟩ 61020]

theorem connections_conserved_busy :
    ∃ s, run step (constructed Bool 1 2 60 fun _ => 1) busy = some s ∧
      s._connectionQue = [⟨1, 61020⟩] ∧ s.destroyed = [0] ∧
      s._connectionCnt.toInt = s._connectionQue.length + s.held.length := by
  have hrun : run step (constructed Bool 1 2 60 fun _ => 1) busy = some _ := rfl
  exact ⟨_, hrun, rfl, rfl, (connections_conserved (by decide) ⟨busy, hrun⟩).1⟩

end CppInOne.ConnectionPool
