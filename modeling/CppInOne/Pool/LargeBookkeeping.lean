import CppInOne.Pool.LargeRegions
import CppInOne.Pool.PoolGrowth

/-!
# Bookkeeping of large regions

A pool of one block is used for large requests, `ngx_pfree` and `ngx_resent_pool`, and for small
requests that the block can serve. What the user holds is a list of large regions; the nodes of
`pool->large` refine it.

## Main definitions

- `handedOut` — the large regions that the user holds after a call
- `Exact` — the nodes hold exactly these regions

## Main results

- `large_bookkeeping_exact` — the nodes after any calls, and what the next call does
-/

namespace CppInOne.Pool
open Function Alignment Transition

/-- The large regions that the user holds after a call, for a pool with this `max`. -/
def handedOut (max : UInt64) (live : List Range) : Request → List Range
  | .palloc n env | .pnalloc n env | .pcalloc n env =>
    if max < n ∧ env.large ≠ 0 then ⟨env.large, n⟩ :: live else live
  | .pfree p => live.filter (·.addr ≠ p)
  | .resentPool _ => []
  | .cleanupAdd _ _ _ => live

/-- The first block has room for the request. -/
def HasRoom (s : State) (n : UInt64) (align : Bool) : Prop :=
  ∀ d ∈ s.data s.pool, CanServe d n align

instance (s : State) (n : UInt64) (align : Bool) : Decidable (HasRoom s n align) :=
  inferInstanceAs (Decidable (∀ d ∈ s.data s.pool, CanServe d n align))

/-- `malloc` fails for a large region or returns one that is not in use, and the first block has
room for what is small. -/
def Served (s : State) (n : UInt64) (align : Bool) (env : Env) : Prop :=
  0 < env.rounds ∧
    if n ≤ s.max then HasRoom s n align
    else env.large = 0 ∨ Fresh s.regions ⟨env.large, n⟩ ∧
      (State.reuse env.large 0 s.large = none → HasRoom s sizeof_ngx_pool_large_s true)

instance (s : State) (n : UInt64) (align : Bool) (env : Env) : Decidable (Served s n align env) :=
  inferInstanceAs (Decidable (_ ∧ ite _ _ _))

/-- The calls of a user that are considered. -/
def Allowed (s : State) : Request → Prop
  | .palloc n env | .pcalloc n env => Served s n true env
  | .pnalloc n env => Served s n false env
  | .pfree _ => True
  | .resentPool rounds => 0 < rounds
  | .cleanupAdd _ _ _ => False

instance (s : State) : DecidablePred (Allowed s)
  | .palloc n env | .pcalloc n env => inferInstanceAs (Decidable (Served s n true env))
  | .pnalloc n env => inferInstanceAs (Decidable (Served s n false env))
  | .pfree _ => inferInstanceAs (Decidable True)
  | .resentPool rounds => inferInstanceAs (Decidable (0 < rounds))
  | .cleanupAdd _ _ _ => inferInstanceAs (Decidable False)

/-- The region is taken out of its node. -/
def vacate (p : UInt64) (l : Large) : Large := if l.alloc = p then { l with alloc := 0 } else l

/-- The region of a live node is freed. -/
def State.vacated (s : State) (p : UInt64) : State :=
  { s with large := s.large.map (vacate p), regions := s.regions.filter (·.addr ≠ p) }

/-- The pool has one block. -/
structure OneBlock (base : UInt64) (s : State) : Prop where
  pool : s.pool = base
  current : s.current = base
  data : ∃ d, s.data base = some d ∧ d.next = 0 ∧ base.toNat + 64 ≤ d.last.toNat

/-- The nodes of the pool hold these regions, each in one node. -/
structure Exact (base size : UInt64) (s : State) (live : List Range) : Prop extends
    OneBlock base s where
  max : s.max = (ngx_create_pool size base).max
  nodes : (allocated s.large).Perm (live.map (·.addr))
  regions : s.regions.Perm (⟨base, size⟩ :: live)
  nodup : (base :: live.map (·.addr)).Nodup
  pos : ∀ r ∈ live, 0 < r.size.toNat

variable {base size n m p : UInt64} {s s' : State} {large large' : List Large}
  {live : List Range} {d : PoolData} {align : Bool} {env : Env} {rounds : Nat} {r : Request}

/-! ## Nodes that lose their region -/

theorem vacate_zero (l : Large) : vacate 0 l = l := by
  unfold vacate
  split
  · rename_i hl
    rw [← hl]
  · rfl

theorem vacate_alloc {l : Large} (h : l.alloc = 0 ∨ l.alloc = p) : (vacate p l).alloc = 0 := by
  unfold vacate
  split
  · rfl
  · rename_i hne
    exact h.resolve_right hne

theorem map_vacate (hp : p ∉ allocated large) : large.map (vacate p) = large := by
  have hsame : ∀ l ∈ large, vacate p l = l := by
    intro l hl
    obtain rfl | hne := eq_or_ne p 0
    · exact vacate_zero l
    · exact if_neg fun heq => hp (mem_allocated.mpr ⟨l, hl, heq, hne⟩)
  exact (List.map_congr_left hsame).trans (List.map_id large)

theorem allocated_map_vacate (large : List Large) :
    allocated (large.map (vacate p)) = (allocated large).filter (· ≠ p) := by
  induction large with
  | nil => rfl
  | cons l rest ih =>
    obtain ⟨node, a⟩ := l
    simp only [allocated, List.map_cons, List.filter_cons] at ih ⊢
    obtain rfl | hap := eq_or_ne a p
    · by_cases hzero : a = 0 <;> simp_all [vacate]
    · by_cases hzero : a = 0 <;> simp_all [vacate]

/-- The loop of `ngx_pfree` ends at the only node that has the region. -/
theorem release_eq_map (hp : p ∈ allocated large) (hnodup : (allocated large).Nodup) :
    State.release p large = some (large.map (vacate p)) := by
  induction large with
  | nil => cases hp
  | cons l rest ih =>
    obtain ⟨node, a⟩ := l
    obtain ⟨-, -, -, hne⟩ := mem_allocated.mp hp
    simp only [State.release, List.map_cons]
    by_cases ha : p = a
    · subst ha
      rw [allocated_cons hne, List.nodup_cons] at hnodup
      rw [if_pos rfl, map_vacate hnodup.1, vacate, if_pos rfl]
    · have hrest : p ∈ allocated rest ∧ (allocated rest).Nodup := by
        by_cases hzero : a = 0
        · subst hzero
          exact ⟨hp, hnodup⟩
        · rw [allocated_cons hzero] at hp hnodup
          exact ⟨(List.mem_cons.mp hp).resolve_left ha, hnodup.of_cons⟩
      rw [if_neg ha, ih hrest.1 hrest.2, vacate, if_neg (Ne.symm ha), Option.map_some]

/-- One of the regions, and the others. -/
theorem perm_cons_filter {r : Range} (hr : r ∈ live) (hnodup : (live.map (·.addr)).Nodup) :
    live.Perm (r :: live.filter (·.addr ≠ r.addr)) := by
  obtain ⟨l₁, l₂, rfl⟩ := List.append_of_mem hr
  rw [List.map_append, List.map_cons, List.nodup_middle, List.nodup_cons, ← List.map_append]
    at hnodup
  have hother : ∀ q ∈ l₁ ++ l₂, decide (q.addr ≠ r.addr) = true := by
    intro q hq
    rw [decide_eq_true_eq]
    intro heq
    exact hnodup.1 (heq ▸ List.mem_map_of_mem hq)
  have hfilter : (l₁ ++ r :: l₂).filter (·.addr ≠ r.addr) = l₁ ++ l₂ := by
    rw [List.filter_append, List.filter_cons_of_neg (by simp), ← List.filter_append]
    exact List.filter_eq_self.mpr hother
  rw [hfilter]
  exact List.perm_middle

/-! ## `ngx_pfree` -/

theorem Exact.nodup_nodes (h : Exact base size s live) : (allocated s.large).Nodup :=
  h.nodes.nodup_iff.mpr h.nodup.of_cons

/-- A live region goes out of its node and back to the system. -/
theorem Exact.pfree_live (h : Exact base size s live) (hp : p ∈ live.map (·.addr)) :
    s.ngx_pfree p = some (s.vacated p) ∧
      Exact base size (s.vacated p) (live.filter (·.addr ≠ p)) := by
  have hnode : p ∈ allocated s.large := h.nodes.symm.subset hp
  obtain ⟨-, -, -, hne⟩ := mem_allocated.mp hnode
  obtain ⟨r, hr, haddr⟩ := List.mem_map.mp hp
  have hany : s.regions.any (·.addr = p) = true := by
    refine List.any_eq_true.mpr ⟨r, ?_, by simpa using haddr⟩
    exact h.regions.symm.subset (List.mem_cons_of_mem _ hr)
  have hbase : base ≠ p := by
    rintro rfl
    exact (List.nodup_cons.mp h.nodup).1 hp
  have hmap : (live.filter (·.addr ≠ p)).map (·.addr) = (live.map (·.addr)).filter (· ≠ p) := by
    rw [List.filter_map]
    rfl
  refine ⟨?_, ⟨h.pool, h.current, h.data⟩, h.max, ?_, ?_, ?_, fun q hq => h.pos q ?_⟩
  · simp only [State.ngx_pfree, release_eq_map hnode h.nodup_nodes, State.free, if_neg hne, hany,
      if_true]
    rfl
  · show (allocated (s.large.map (vacate p))).Perm _
    rw [allocated_map_vacate, hmap]
    exact h.nodes.filter _
  · have hfilter := h.regions.filter (·.addr ≠ p)
    rw [List.filter_cons_of_pos (by simpa using hbase)] at hfilter
    exact hfilter
  · rw [hmap]
    exact h.nodup.sublist (List.Sublist.cons_cons base List.filter_sublist)
  · exact (List.mem_filter.mp hq).1

/-- Nothing else is freed. -/
theorem Exact.pfree_other (h : Exact base size s live) (hp : p ∉ live.map (·.addr)) :
    s.ngx_pfree p = some s ∧ live.filter (·.addr ≠ p) = live := by
  have hnode : p ∉ allocated s.large := fun hmem => hp (h.nodes.subset hmem)
  refine ⟨?_, List.filter_eq_self.mpr fun r hr => ?_⟩
  · simp only [State.ngx_pfree]
    split
    · rfl
    · rename_i large' hrelease
      obtain rfl | hne := eq_or_ne p 0
      · obtain rfl := release_zero hrelease
        rfl
      · rw [release_eq_none hnode hne] at hrelease
        cases hrelease
  · rw [decide_eq_true_eq]
    rintro rfl
    exact hp (List.mem_map_of_mem hr)

/-! ## Allocations -/

/-- A place for a request that fits. -/
theorem room_of_canServe (h : CanServe d n align) :
    (State.place d align).toNat = freeFrom d align ∧ n ≤ d.end_ - State.place d align := by
  have hend : freeFrom d align + n.toNat ≤ d.end_.toNat := h
  have hplace : (State.place d align).toNat = freeFrom d align := by
    cases align with
    | false => rfl
    | true => exact State.toNat_place (Nat.le_trans (Nat.le_add_right _ _) hend)
  have hle : State.place d align ≤ d.end_ := by
    rw [UInt64.le_iff_toNat_le, hplace]
    exact Nat.le_trans (Nat.le_add_right _ _) hend
  refine ⟨hplace, (State.le_sub_iff hle).mpr ?_⟩
  rw [hplace]
  exact hend

theorem le_freeFrom (d : PoolData) (align : Bool) : d.last.toNat ≤ freeFrom d align := by
  cases align with
  | false => exact Nat.le_refl _
  | true => exact le_roundUp (by decide) _

/-- A small request is served from the block. -/
theorem OneBlock.palloc_small (h : OneBlock base s) (hroom : HasRoom s n align)
    (hrounds : 0 < env.rounds) :
    ∃ d m, s.ngx_palloc_small n align env = some (s.handOut base d m n, m) ∧ m ≠ 0 ∧
      OneBlock base (s.handOut base d m n) := by
  obtain ⟨d, hd, hnext, hheader⟩ := h.data
  have hserve : CanServe d n align := hroom d (by rw [h.pool, hd]; rfl)
  obtain ⟨hplace, hfits⟩ := room_of_canServe hserve
  have hend : freeFrom d align + n.toNat ≤ d.end_.toNat := hserve
  have hlast := le_freeFrom d align
  have hadd : (State.place d align + n).toNat = freeFrom d align + n.toNat := by
    rw [toNat_add, hplace]
    exact Nat.lt_of_le_of_lt (hplace ▸ hend) d.end_.toNat_lt
  obtain ⟨k, hk⟩ := Nat.exists_eq_succ_of_ne_zero (Nat.ne_of_gt hrounds)
  refine ⟨d, State.place d align, ?_, fun hzero => ?_, h.pool, h.current, ?_⟩
  · simp only [State.ngx_palloc_small, h.current, hk, State.search, hd, ge_iff_le, hfits, if_true]
  · rw [hzero] at hplace
    have hzero : (0 : UInt64).toNat = 0 := rfl
    omega
  · refine ⟨_, update_self _ _ _, hnext, ?_⟩
    show base.toNat + 64 ≤ (State.place d align + n).toNat
    omega

theorem Exact.notMem (h : Exact base size s live) (hfresh : Fresh s.regions ⟨p, n⟩)
    (hn : 0 < n.toNat) (hsize : 0 < size.toNat) : p ∉ base :: live.map (·.addr) := by
  intro hmem
  obtain rfl | hmem := List.mem_cons.mp hmem
  · exact hfresh.ne hn (h.regions.symm.subset List.mem_cons_self) hsize rfl
  · obtain ⟨r, hr, haddr⟩ := List.mem_map.mp hmem
    exact hfresh.ne hn (h.regions.symm.subset (List.mem_cons_of_mem _ hr)) (h.pos r hr) haddr

/-- A new region in a node of its own. -/
theorem Exact.take (h : Exact base size s live) (hblock : OneBlock base s')
    (hmax : s'.max = s.max) (hregions : s'.regions = ⟨p, n⟩ :: s.regions)
    (hnode : (allocated s'.large).Perm (p :: allocated s.large))
    (hp : p ∉ base :: live.map (·.addr)) (hn : 0 < n.toNat) :
    Exact base size s' (⟨p, n⟩ :: live) := by
  refine ⟨hblock, hmax.trans h.max, hnode.trans (h.nodes.cons p), ?_, ?_, fun r hr => ?_⟩
  · rw [hregions]
    exact (h.regions.cons _).trans (List.Perm.swap _ _ _)
  · exact (List.Perm.swap _ _ _).nodup_iff.mp (List.nodup_cons.mpr ⟨hp, h.nodup⟩)
  · obtain rfl | hr := List.mem_cons.mp hr
    · exact hn
    · exact h.pos r hr

/-- A large request takes a node without a region, or a new one. -/
theorem Exact.palloc_large (h : Exact base size s live) (hsize : 0 < size.toNat)
    (hn : 0 < n.toNat) (hrounds : 0 < env.rounds) (hlarge : env.large ≠ 0)
    (hfresh : Fresh s.regions ⟨env.large, n⟩)
    (hroom : State.reuse env.large 0 s.large = none → HasRoom s sizeof_ngx_pool_large_s true) :
    ∃ s', s.ngx_palloc_large n env = some (s', env.large) ∧
      Exact base size s' (⟨env.large, n⟩ :: live) ∧
      ∀ l ∈ s.large, l.alloc ≠ 0 → l ∈ s'.large := by
  have hp := h.notMem hfresh hn hsize
  simp only [State.ngx_palloc_large, State.malloc, if_neg hlarge, if_pos hfresh]
  generalize ht : { s with regions := ⟨env.large, n⟩ :: s.regions } = t
  have hsame : t.large = s.large := by rw [← ht]
  have hregions : t.regions = ⟨env.large, n⟩ :: s.regions := by rw [← ht]
  have hmax : t.max = s.max := by rw [← ht]
  have hblock : OneBlock base t := by
    rw [← ht]
    exact ⟨h.pool, h.current, h.data⟩
  cases hreuse : State.reuse env.large 0 s.large with
  | some large =>
    subst ht
    refine ⟨_, rfl, h.take ⟨hblock.pool, hblock.current, hblock.data⟩ rfl rfl ?_ hp hn,
      fun l hl hne => ?_⟩
    · exact reuse_perm hlarge hreuse
    -- the node that is reused has no region
    obtain ⟨l₁, node, l₂, hsplit, rfl⟩ := reuse_eq_some hreuse
    rw [hsplit, List.mem_append, List.mem_cons] at hl
    obtain hl | rfl | hl := hl
    · exact List.mem_append_left _ hl
    · exact absurd rfl hne
    · exact List.mem_append_right _ (List.mem_cons_of_mem _ hl)
  | none =>
    have hserve : HasRoom t sizeof_ngx_pool_large_s true := by
      rw [← ht]
      exact hroom hreuse
    obtain ⟨d, node, hsmall, hnode, hafter⟩ := hblock.palloc_small hserve hrounds
    simp only [hsmall, if_neg hnode]
    refine ⟨_, rfl, h.take ⟨hafter.pool, hafter.current, hafter.data⟩ hmax hregions ?_ hp hn,
      fun l hl _ => ?_⟩
    · show (allocated (⟨node, env.large⟩ :: t.large)).Perm _
      rw [allocated_cons hlarge, hsame]
    · rw [← hsame] at hl
      exact List.mem_cons_of_mem ⟨node, env.large⟩ hl

/-- What an allocation does. -/
theorem Exact.allocate (h : Exact base size s live) (hsize : 0 < size.toNat)
    (hs : Served s n align env) :
    ∃ s' m, (if n ≤ s.max then s.ngx_palloc_small n align env else s.ngx_palloc_large n env) =
        some (s', m) ∧
      Exact base size s' (if (ngx_create_pool size base).max < n ∧ env.large ≠ 0 then
        ⟨env.large, n⟩ :: live else live) ∧
      ∀ l ∈ s.large, l.alloc ≠ 0 → l ∈ s'.large := by
  obtain ⟨hrounds, hs⟩ := hs
  rw [← h.max]
  by_cases hn : n ≤ s.max
  · rw [if_pos hn] at hs ⊢
    rw [if_neg fun hover => UInt64.not_lt.mpr hn hover.1]
    obtain ⟨d, m, hsmall, -, hblock⟩ := h.toOneBlock.palloc_small hs hrounds
    exact ⟨_, m, hsmall, ⟨hblock, h.max, h.nodes, h.regions, h.nodup, h.pos⟩, fun l hl _ => hl⟩
  · rw [if_neg hn] at hs ⊢
    have hover := UInt64.not_le.mp hn
    have hpos := toNat_pos_of_lt hover
    by_cases hlarge : env.large = 0
    · rw [if_neg fun hboth => hboth.2 hlarge]
      refine ⟨s, 0, ?_, h, fun l hl _ => hl⟩
      simp only [State.ngx_palloc_large, State.malloc, hlarge, if_true]
    · rw [if_pos ⟨hover, hlarge⟩]
      obtain ⟨hfresh, hroom⟩ := hs.resolve_left hlarge
      obtain ⟨s', hcall, hrest⟩ := h.palloc_large hsize hpos hrounds hlarge hfresh hroom
      exact ⟨s', env.large, hcall, hrest⟩

/-! ## Reset and destruction -/

/-- The body of the loop that `ngx_resent_pool` has over the nodes. -/
theorem Exact.resetLarge (h : Exact base size s live) {i : Nat} (hi : i < s.large.length) :
    ∃ s' live' p, s.resetLarge i = some s' ∧ Exact base size s' live' ∧ s.large[i].alloc = p ∧
      s'.large = s.large.map (vacate p) := by
  simp only [State.resetLarge, List.getElem?_eq_getElem hi]
  split
  · rename_i hzero
    refine ⟨s, live, 0, rfl, h, hzero, ?_⟩
    rw [map_vacate fun hmem => (mem_allocated.mp hmem).choose_spec.2.2 rfl]
  · rename_i hne
    have hmem : s.large[i].alloc ∈ live.map (·.addr) :=
      h.nodes.subset (mem_allocated.mpr ⟨_, List.getElem_mem hi, rfl, hne⟩)
    obtain ⟨hfree, hexact⟩ := h.pfree_live hmem
    exact ⟨_, _, _, hfree, hexact, rfl, rfl⟩

/-- The whole loop: every node that it comes to has no region behind it. -/
theorem Exact.resetLarges (h : Exact base size s live) (nodes : List Nat)
    (hnodes : ∀ i ∈ nodes, i < s.large.length) :
    ∃ s' live', nodes.foldlM State.resetLarge s = some s' ∧ Exact base size s' live' ∧
      s'.large.length = s.large.length ∧
      ∀ i l', s'.large[i]? = some l' →
        (i ∈ nodes ∨ ∃ l, s.large[i]? = some l ∧ l.alloc = 0) → l'.alloc = 0 := by
  induction nodes generalizing s live with
  | nil =>
    refine ⟨s, live, rfl, h, rfl, fun i l' hl' hor => ?_⟩
    obtain ⟨l, hl, hzero⟩ := hor.resolve_left List.not_mem_nil
    obtain rfl := Option.some.inj (hl.symm.trans hl')
    exact hzero
  | cons i nodes ih =>
    have hi := hnodes i List.mem_cons_self
    obtain ⟨t, live₁, p, ht, hexact, hp, hlarge⟩ := h.resetLarge hi
    have hlength : t.large.length = s.large.length := by rw [hlarge, List.length_map]
    obtain ⟨s', live', hs', hexact', hlength', hempty⟩ := ih hexact fun j hj => by
      rw [hlength]
      exact hnodes j (List.mem_cons_of_mem i hj)
    refine ⟨s', live', ?_, hexact', hlength'.trans hlength, fun j l' hl' hor => ?_⟩
    · rw [List.foldlM_cons, ht]
      exact hs'
    · refine hempty j l' hl' ?_
      have hafter : ∀ l, s.large[j]? = some l → t.large[j]? = some (vacate p l) := by
        intro l hl
        rw [hlarge, List.getElem?_map, hl, Option.map_some]
      obtain hj | ⟨l, hl, hzero⟩ := hor
      · obtain rfl | hj := List.mem_cons.mp hj
        · exact Or.inr ⟨_, hafter _ (List.getElem?_eq_getElem hi), vacate_alloc (Or.inr hp)⟩
        · exact Or.inl hj
      · exact Or.inr ⟨_, hafter l hl, vacate_alloc (Or.inl hzero)⟩

theorem Exact.nil (h : Exact base size s live) (hempty : allocated s.large = []) :
    live = [] := by
  have hnodes := h.nodes
  rw [hempty] at hnodes
  exact List.map_eq_nil_iff.mp hnodes.symm.eq_nil

/-- A reset frees the regions of all nodes. -/
theorem Exact.resent_pool (h : Exact base size s live) (hsize : base.toNat + 64 < 2 ^ 64)
    (hrounds : 0 < rounds) :
    ∃ s', s.ngx_resent_pool rounds = some s' ∧ Exact base size s' [] ∧ s'.large = [] := by
  obtain ⟨t, live', hloop, ht, hlength, hempty⟩ :=
    h.resetLarges (List.range s.large.length) fun i hi => List.mem_range.mp hi
  have hnone : allocated t.large = [] := by
    refine List.eq_nil_iff_forall_not_mem.mpr fun a ha => ?_
    obtain ⟨l, hl, rfl, hne⟩ := mem_allocated.mp ha
    obtain ⟨i, hi⟩ := List.mem_iff_getElem?.mp hl
    have hlt : i < s.large.length := hlength ▸ (List.getElem?_eq_some_iff.mp hi).1
    exact hne (hempty i l hi (Or.inl (List.mem_range.mpr hlt)))
  obtain rfl := ht.nil hnone
  obtain ⟨d, hd, hnext, -⟩ := ht.data
  obtain ⟨k, rfl⟩ := Nat.exists_eq_succ_of_ne_zero (Nat.ne_of_gt hrounds)
  simp only [State.ngx_resent_pool, hloop, ht.pool, hd, hnext, State.resetBlocks, if_true]
  refine ⟨_, rfl, ⟨⟨ht.pool, ht.pool, _, update_self _ _ _, rfl, ?_⟩, ht.max, List.Perm.refl _,
    ht.regions, ht.nodup, ht.pos⟩, rfl⟩
  exact Nat.le_of_eq (toNat_add_pool_s hsize).symm

/-- The loop that `ngx_destory_pool` has over the nodes. -/
theorem destroyLarges (nodes : List Large) (hnodup : (allocated nodes).Nodup)
    (hregions : ∀ a ∈ allocated nodes, ∃ k, ⟨a, k⟩ ∈ s.regions) :
    nodes.foldlM State.destroyLarge s =
      some { s with regions := s.regions.filter (·.addr ∉ allocated nodes) } := by
  induction nodes generalizing s with
  | nil => simp [allocated]
  | cons l rest ih =>
    obtain ⟨node, a⟩ := l
    rw [List.foldlM_cons]
    by_cases hzero : a = 0
    · subst hzero
      exact ih hnodup hregions
    · rw [allocated_cons hzero] at hnodup hregions ⊢
      obtain ⟨hnotMem, hnodup⟩ := List.nodup_cons.mp hnodup
      obtain ⟨k, hk⟩ := hregions a List.mem_cons_self
      have hany : s.regions.any (·.addr = a) = true :=
        List.any_eq_true.mpr ⟨_, hk, by simp⟩
      simp only [State.destroyLarge, State.free, if_neg hzero, hany, if_true]
      refine (ih hnodup fun b hb => ?_).trans ?_
      · obtain ⟨j, hj⟩ := hregions b (List.mem_cons_of_mem a hb)
        have hba : b ≠ a := by
          rintro rfl
          exact hnotMem hb
        exact ⟨j, List.mem_filter.mpr ⟨hj, by simpa using hba⟩⟩
      · simp only [List.filter_filter, List.mem_cons, not_or, Bool.decide_and, Bool.and_comm]

/-- The destruction frees the regions of all nodes and the block. -/
theorem Exact.destory_pool (h : Exact base size s live) (hne : base ≠ 0) (hrounds : 0 < rounds) :
    ∃ s', s.ngx_destory_pool rounds = some s' ∧ s'.regions = [] := by
  have hmem : ∀ a, a ∈ allocated s.large ↔ a ∈ live.map (·.addr) := fun a => h.nodes.mem_iff
  have hloop := destroyLarges s.large h.nodup_nodes fun a ha => by
    obtain ⟨r, hr, rfl⟩ := List.mem_map.mp ((hmem a).mp ha)
    exact ⟨r.size, h.regions.symm.subset (List.mem_cons_of_mem _ hr)⟩
  have hregions : s.regions.filter (·.addr ∉ allocated s.large) = [⟨base, size⟩] := by
    have hbase : base ∉ allocated s.large := fun hin =>
      (List.nodup_cons.mp h.nodup).1 ((hmem base).mp hin)
    have hlive : live.filter (·.addr ∉ allocated s.large) = [] := by
      refine List.filter_eq_nil_iff.mpr fun r hr => ?_
      simpa using (hmem r.addr).mpr (List.mem_map_of_mem hr)
    have hfilter := h.regions.filter (·.addr ∉ allocated s.large)
    rw [List.filter_cons_of_pos (by simpa using hbase), hlive] at hfilter
    exact hfilter.eq_singleton
  obtain ⟨d, hd, hnext, -⟩ := h.data
  obtain ⟨k, rfl⟩ := Nat.exists_eq_succ_of_ne_zero (Nat.ne_of_gt hrounds)
  rw [hregions] at hloop
  simp only [State.ngx_destory_pool, hloop, h.pool, State.destroyBlocks, hd, State.free, if_neg hne,
    List.any_cons, decide_true, Bool.true_or, hnext, if_true]
  exact ⟨_, rfl, by simp⟩

/-! ## Every call -/

theorem exact_create (hsize : sizeof_ngx_pool_s ≤ size) (hbase : Fresh [] ⟨base, size⟩) :
    Exact base size (ngx_create_pool size base) [] := by
  obtain ⟨d, hdata, hlast, -, -, hnext, -⟩ := create_first hsize hbase
  exact ⟨⟨rfl, rfl, d, hdata, hnext, Nat.le_of_eq hlast.symm⟩, rfl, List.Perm.refl _,
    List.Perm.refl _, List.nodup_singleton base, by simp⟩

/-- **Step lemma**: a call is defined, and the nodes follow what the user holds. -/
theorem Exact.step (h : Exact base size s live) (hsize : sizeof_ngx_pool_s ≤ size)
    (hbase : Fresh [] ⟨base, size⟩) (hr : Allowed s r) :
    ∃ s', step s r = some s' ∧
      Exact base size s' (handedOut (ngx_create_pool size base).max live r) ∧
      (r.memory.isSome = true → ∀ l ∈ s.large, l.alloc ≠ 0 → l ∈ s'.large) := by
  have hle : (64 : Nat) ≤ size.toNat := UInt64.le_iff_toNat_le.mp hsize
  have hpos : 0 < size.toNat := Nat.lt_of_lt_of_le (by decide) hle
  have hstop : base.toNat + 64 < 2 ^ 64 :=
    Nat.lt_of_le_of_lt (Nat.add_le_add_left hle _) hbase.2.2.1
  cases r with
  | palloc n env | pcalloc n env | pnalloc n env =>
    obtain ⟨s', m, hcall, hexact, hkept⟩ := h.allocate hpos hr
    exact ⟨s', Option.map_eq_some_iff.mpr ⟨(s', m), hcall, rfl⟩, hexact, fun _ => hkept⟩
  | pfree p =>
    by_cases hp : p ∈ live.map (·.addr)
    · obtain ⟨hfree, hexact⟩ := h.pfree_live hp
      exact ⟨_, by simp [Pool.step, call, hfree], hexact, by simp [Request.memory]⟩
    · obtain ⟨hfree, hsame⟩ := h.pfree_other hp
      refine ⟨s, by simp [Pool.step, call, hfree], ?_, by simp [Request.memory]⟩
      rw [handedOut, hsame]
      exact h
  | resentPool rounds =>
    obtain ⟨s', hreset, hexact, -⟩ := h.resent_pool hstop hr
    exact ⟨s', by simp [Pool.step, call, hreset], hexact, by simp [Request.memory]⟩
  | cleanupAdd => exact hr.elim

/-- What is right about the large regions of a pool when the user holds these. -/
structure Bookkept (base size : UInt64) (s : State) (live : List Range) : Prop where
  /-- The nodes have these regions, each in exactly one of them. -/
  node : ∀ a, a ≠ 0 → s.large.countP (·.alloc = a) = if a ∈ live.map (·.addr) then 1 else 0
  /-- Besides the block they are all that is in use, each once. -/
  regions : s.regions.Perm (⟨base, size⟩ :: live)
  nodup : s.regions.Nodup
  /-- An allocation overwrites no node that has a region. -/
  kept : ∀ r s', r.memory.isSome = true → Allowed s r → step s r = some s' →
    ∀ l ∈ s.large, l.alloc ≠ 0 → l ∈ s'.large
  /-- Of these `ngx_pfree` frees what it is given. -/
  pfree_live : ∀ r ∈ live, s.ngx_pfree r.addr = some (s.vacated r.addr) ∧
    s.regions.Perm (r :: (s.vacated r.addr).regions)
  pfree_other : ∀ p ∉ live.map (·.addr), s.ngx_pfree p = some s
  /-- A reset is defined, so that nothing is freed twice, and leaves only the block. -/
  reset : ∀ rounds, 0 < rounds → ∃ s', s.ngx_resent_pool rounds = some s' ∧ s'.large = [] ∧
    s'.regions = [⟨base, size⟩]
  destroy : ∀ rounds, 0 < rounds → ∃ s', s.ngx_destory_pool rounds = some s' ∧ s'.regions = []

theorem Exact.node (h : Exact base size s live) {a : UInt64} (ha : a ≠ 0) :
    s.large.countP (·.alloc = a) = if a ∈ live.map (·.addr) then 1 else 0 := by
  have hcount : s.large.countP (·.alloc = a) = (allocated s.large).count a := by
    rw [allocated, List.count_filter (by simpa using ha), List.count, List.countP_map]
    rfl
  rw [hcount, h.nodup_nodes.count]
  exact if_congr h.nodes.mem_iff rfl rfl

theorem Exact.bookkept (h : Exact base size s live) (hsize : sizeof_ngx_pool_s ≤ size)
    (hbase : Fresh [] ⟨base, size⟩) : Bookkept base size s live := by
  have hle : (64 : Nat) ≤ size.toNat := UInt64.le_iff_toNat_le.mp hsize
  have hstop : base.toNat + 64 < 2 ^ 64 :=
    Nat.lt_of_le_of_lt (Nat.add_le_add_left hle _) hbase.2.2.1
  refine ⟨fun a ha => h.node ha, h.regions, ?_, fun r s' hmemory hr hs => ?_, fun r hr => ?_,
    fun p hp => (h.pfree_other hp).1, fun rounds hrounds => ?_, fun rounds hrounds => ?_⟩
  · have haddr : ((⟨base, size⟩ :: live : List Range).map (·.addr)).Nodup := h.nodup
    exact h.regions.nodup_iff.mpr (List.Nodup.of_map _ haddr)
  · obtain ⟨t, ht, -, hkept⟩ := h.step hsize hbase hr
    obtain rfl := Option.some.inj (ht.symm.trans hs)
    exact hkept hmemory
  · obtain ⟨hfree, hexact⟩ := h.pfree_live (List.mem_map_of_mem hr)
    have hsplit := (perm_cons_filter hr h.nodup.of_cons).cons ⟨base, size⟩
    have hfreed := (List.Perm.swap r ⟨base, size⟩ _).trans (hexact.regions.symm.cons r)
    exact ⟨hfree, (h.regions.trans hsplit).trans hfreed⟩
  · obtain ⟨s', hreset, hexact, hlarge⟩ := h.resent_pool hstop hrounds
    exact ⟨s', hreset, hlarge, hexact.regions.eq_singleton⟩
  · exact h.destory_pool hbase.1 hrounds

/-- **The nodes of `pool->large` are exactly the large regions that the user holds.** After any
allowed calls on a new pool, and then for any next call. -/
theorem large_bookkeeping_exact {rs : List Request} (hsize : sizeof_ngx_pool_s ≤ size)
    (hbase : Fresh [] ⟨base, size⟩) (hrs : Guarded step Allowed (ngx_create_pool size base) rs) :
    ∃ s, run step (ngx_create_pool size base) rs = some s ∧
      Bookkept base size s (rs.foldl (handedOut (ngx_create_pool size base).max) []) := by
  have hstep : ∀ s live r, Exact base size s live → Allowed s r →
      ∃ s', step s r = some s' ∧
        Exact base size s' (handedOut (ngx_create_pool size base).max live r) := by
    intro s live r h hr
    obtain ⟨s', hs', hexact, -⟩ := h.step hsize hbase hr
    exact ⟨s', hs', hexact⟩
  obtain ⟨s, hrun, hexact⟩ := run_refines hstep (exact_create hsize hbase) hrs
  exact ⟨s, hrun, hexact.bookkept hsize hbase⟩

/-- Three large regions of which one is freed twice and its node is used again; a pointer that was
never handed out is freed too. -/
def churn : List Request :=
  [.palloc 200 ⟨8192, 0, 0, 1⟩, .pnalloc 200 ⟨12288, 0, 0, 1⟩, .pfree 8192, .pfree 8192,
    .pfree 4160, .pcalloc 300 ⟨16384, 0, 0, 1⟩]

theorem large_bookkeeping_exact_churn : ∃ s, run step (ngx_create_pool 128 4096) churn = some s ∧
    s.large = [⟨4176, 12288⟩, ⟨4160, 16384⟩] ∧
    Bookkept 4096 128 s [⟨16384, 300⟩, ⟨12288, 200⟩] := by
  obtain ⟨s, hrun, h⟩ : ∃ s, run step (ngx_create_pool 128 4096) churn = some s ∧
      Bookkept 4096 128 s [⟨16384, 300⟩, ⟨12288, 200⟩] :=
    large_bookkeeping_exact (by decide) (by decide) (by decide)
  have hlarge : (run step (ngx_create_pool 128 4096) churn).map (·.large) =
      some [⟨4176, 12288⟩, ⟨4160, 16384⟩] := rfl
  rw [hrun] at hlarge
  exact ⟨s, hrun, Option.some.inj hlarge, h⟩

end CppInOne.Pool
