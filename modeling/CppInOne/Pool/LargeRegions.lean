import CppInOne.Lib.Transition
import CppInOne.Pool.ReachablePool

/-!
# Large allocations that fail

`ngx_palloc_large` needs two pieces of memory: the large region and, if no node of `pool->large`
can take it, a small one for a new node. Without the second one it calls `ngx_pfree` on the
region, which looks for it in `pool->large`, where it is not yet.

## Main definitions

- `allocated` — the regions of `pool->large`
- `Owned` — each of them is in use and has one node
- `Unchanged` — what a call that fails should leave alone

## Main results

- `failed_large_unchanged_iff` — which calls that fail leave it alone
-/

namespace CppInOne.Pool
open Function Transition

/-- The pointers `alloc` that are not null. -/
def allocated (large : List Large) : List UInt64 := (large.map (·.alloc)).filter (· ≠ 0)

structure Owned (s : State) : Prop where
  nodup : (allocated s.large).Nodup
  region : ∀ a ∈ allocated s.large, ∃ k, ⟨a, k⟩ ∈ s.regions ∧ 0 < k.toNat

/-- The same memory is in use, with the same large regions and blocks. -/
structure Unchanged (s s' : State) : Prop where
  regions : ∀ r, r ∈ s'.regions ↔ r ∈ s.regions
  large : s'.large = s.large
  pool : s'.pool = s.pool
  current : s'.current = s.current
  data : s'.data = s.data

variable {size base n m p : UInt64} {s s' : State} {large large' : List Large} {align : Bool}
  {env env' : Env} {rounds : Nat} {r : Request}

/-! ## The nodes -/

theorem mem_allocated {a : UInt64} : a ∈ allocated large ↔ ∃ l ∈ large, l.alloc = a ∧ a ≠ 0 := by
  simp only [allocated, List.mem_filter, List.mem_map, decide_eq_true_eq]
  constructor
  · rintro ⟨⟨l, hl, rfl⟩, hne⟩
    exact ⟨l, hl, rfl, hne⟩
  · rintro ⟨l, hl, rfl, hne⟩
    exact ⟨⟨l, hl, rfl⟩, hne⟩

theorem allocated_cons {node : UInt64} (hp : p ≠ 0) :
    allocated (⟨node, p⟩ :: large) = p :: allocated large := by
  simp [allocated, hp]

/-- A node has the region or none. -/
theorem allocated_perm {l₁ l₂ : List Large} {node : UInt64} (hp : p ≠ 0) :
    (allocated (l₁ ++ ⟨node, p⟩ :: l₂)).Perm (p :: allocated (l₁ ++ ⟨node, 0⟩ :: l₂)) := by
  have hempty : allocated (l₁ ++ ⟨node, 0⟩ :: l₂) = allocated l₁ ++ allocated l₂ := by
    simp [allocated]
  have hfull : allocated (l₁ ++ ⟨node, p⟩ :: l₂) = allocated l₁ ++ p :: allocated l₂ := by
    simp [allocated, hp]
  rw [hempty, hfull]
  exact List.perm_middle

/-- The node itself stays where it is. -/
theorem exists_node {l₁ l₂ : List Large} {node q : UInt64} {l : Large}
    (hl : l ∈ l₁ ++ ⟨node, q⟩ :: l₂) : ∃ l' ∈ l₁ ++ ⟨node, p⟩ :: l₂, l'.node = l.node := by
  rw [List.mem_append, List.mem_cons] at hl
  obtain hl | rfl | hl := hl
  · exact ⟨l, List.mem_append_left _ hl, rfl⟩
  · exact ⟨_, List.mem_append_right _ List.mem_cons_self, rfl⟩
  · exact ⟨l, List.mem_append_right _ (List.mem_cons_of_mem _ hl), rfl⟩

theorem release_perm (hp : p ≠ 0) (h : State.release p large = some large') :
    (allocated large).Perm (p :: allocated large') := by
  obtain ⟨l₁, node, l₂, rfl, rfl⟩ := release_eq_some h
  exact allocated_perm hp

theorem reuse_perm {k : Nat} (hp : p ≠ 0) (h : State.reuse p k large = some large') :
    (allocated large').Perm (p :: allocated large) := by
  obtain ⟨l₁, node, l₂, rfl, rfl⟩ := reuse_eq_some h
  exact allocated_perm hp

/-- `ngx_pfree` finds what a node has, and only that. -/
theorem release_eq_none (hp : p ∉ allocated large) (hne : p ≠ 0) :
    State.release p large = none := by
  by_contra hsome
  obtain ⟨large', h⟩ := Option.ne_none_iff_exists'.mp hsome
  exact hp ((release_perm hne h).symm.subset List.mem_cons_self)

/-- For the null pointer it changes nothing. -/
theorem release_zero (h : State.release 0 large = some large') : large' = large := by
  obtain ⟨l₁, node, l₂, rfl, rfl⟩ := release_eq_some h
  rfl

/-! ## Every node keeps its region -/

theorem Owned.mono (h : Owned s) (hlarge : s'.large = s.large)
    (hregions : ∀ r ∈ s.regions, r ∈ s'.regions) : Owned s' := by
  refine ⟨hlarge ▸ h.nodup, fun a ha => ?_⟩
  obtain ⟨k, hk, hpos⟩ := h.region a (hlarge ▸ ha)
  exact ⟨k, hregions _ hk, hpos⟩

/-- What `malloc` has just returned belongs to no node. -/
theorem Owned.notMem (h : Owned s) (hfresh : Fresh s.regions ⟨p, n⟩) (hn : 0 < n.toNat) :
    p ∉ allocated s.large := by
  intro hp
  obtain ⟨k, hk, hpos⟩ := h.region p hp
  exact hfresh.ne hn hk hpos rfl

theorem Owned.setLarge (h : Owned s) (hp : p ∉ allocated s.large)
    (hregion : ∃ k, ⟨p, k⟩ ∈ s.regions ∧ 0 < k.toNat)
    (hperm : (allocated large').Perm (p :: allocated s.large)) :
    Owned { s with large := large' } := by
  refine ⟨hperm.nodup_iff.mpr (List.nodup_cons.mpr ⟨hp, h.nodup⟩), fun a ha => ?_⟩
  obtain rfl | ha := List.mem_cons.mp (hperm.subset ha)
  · exact hregion
  · exact h.region a ha

/-- A small allocation frees nothing and leaves the large regions alone. -/
theorem palloc_small_frame (hs : s.ngx_palloc_small n align env = some (s', m)) :
    s'.large = s.large ∧ ∀ r ∈ s.regions, r ∈ s'.regions := by
  simp only [State.ngx_palloc_small] at hs
  split at hs
  · cases hs
  · rename_i t m' hsearch
    cases hs
    obtain ⟨b, d, -, -, -, rfl⟩ := State.search_served hsearch
    exact ⟨rfl, fun _ hr => hr⟩
  · rename_i t hsearch
    obtain rfl := State.search_none hsearch
    obtain ⟨-, rfl, -⟩ | ⟨_, counted, _, _, -, -, -, -, -, hcount, -, rfl⟩ :=
      State.palloc_block_cases hs
    · exact ⟨rfl, fun _ hr => hr⟩
    · obtain ⟨-, -, hlarge, -, hregions, -⟩ := State.countFailures_frame hcount
      refine ⟨hlarge, fun r hr => ?_⟩
      show r ∈ counted.regions
      rw [hregions]
      exact List.mem_cons_of_mem _ hr

theorem Owned.ngx_pfree (h : Owned s) (hs : s.ngx_pfree p = some s') : Owned s' := by
  simp only [State.ngx_pfree, State.free] at hs
  split at hs
  · cases hs
    exact h
  · rename_i large' hrelease
    split at hs
    · rename_i hp
      subst hp
      cases hs
      exact h.mono (release_zero hrelease) fun _ hr => hr
    · rename_i hp
      split at hs
      · cases hs
        have hperm := release_perm hp hrelease
        obtain ⟨hnotMem, hnodup⟩ := List.nodup_cons.mp (hperm.nodup_iff.mp h.nodup)
        refine ⟨hnodup, fun a ha => ?_⟩
        obtain ⟨k, hk, hpos⟩ := h.region a (hperm.symm.subset (List.mem_cons_of_mem p ha))
        have hap : a ≠ p := by
          rintro rfl
          exact hnotMem ha
        exact ⟨k, List.mem_filter.mpr ⟨hk, by simpa using hap⟩, hpos⟩
      · cases hs

theorem Owned.palloc_large (h : Owned s) (hn : 0 < n.toNat)
    (hs : s.ngx_palloc_large n env = some (s', m)) : Owned s' := by
  obtain ⟨-, rfl, -⟩ | ⟨t, hlarge, hfresh, ht, hnode⟩ := State.palloc_large_cases hs
  · exact h
  have hsame : t.large = s.large := by rw [ht]
  have hmem : ⟨env.large, n⟩ ∈ t.regions := by
    rw [ht]
    exact List.mem_cons_self
  have hp : env.large ∉ allocated t.large := hsame ▸ h.notMem hfresh hn
  have howned : Owned t := by
    refine h.mono hsame fun r hr => ?_
    rw [ht]
    exact List.mem_cons_of_mem _ hr
  obtain ⟨large, hreuse, rfl, -⟩ | ⟨s₂, node, hsmall, hnode⟩ := hnode
  · rw [← hsame] at hreuse
    exact howned.setLarge hp ⟨n, hmem, hn⟩ (reuse_perm hlarge hreuse)
  · obtain ⟨hkept, hregions⟩ := palloc_small_frame hsmall
    have hafter : Owned s₂ := howned.mono hkept hregions
    obtain ⟨-, hfree, -⟩ | ⟨-, rfl, -⟩ := hnode
    · exact hafter.ngx_pfree hfree
    · rw [← hkept] at hp
      refine hafter.setLarge hp ⟨n, hregions _ hmem, hn⟩ ?_
      rw [allocated_cons hlarge]

theorem Owned.allocate (h : Owned s) (align : Bool)
    (hs : (if n ≤ s.max then s.ngx_palloc_small n align env else s.ngx_palloc_large n env) =
      some (s', m)) : Owned s' := by
  split at hs
  · obtain ⟨hlarge, hregions⟩ := palloc_small_frame hs
    exact h.mono hlarge hregions
  · rename_i hn
    exact h.palloc_large (toNat_pos_of_lt (UInt64.not_le.mp hn)) hs

/-- A reset leaves no node. -/
theorem resent_pool_large (hs : s.ngx_resent_pool rounds = some s') : s'.large = [] := by
  obtain ⟨_, _, _, _, _, _, rfl⟩ := resent_pool_cases hs
  rfl

/-- **Step lemma**: every call keeps the regions of the nodes. -/
theorem Owned.step (h : Owned s) (hs : step s r = some s') : Owned s' := by
  obtain ⟨⟨t, m⟩, hcall, rfl⟩ := Option.map_eq_some_iff.mp hs
  cases r with
  | palloc n env | pcalloc n env => exact h.allocate true hcall
  | pnalloc n env => exact h.allocate false hcall
  | pfree p =>
    obtain ⟨t, hfree, heq⟩ := Option.map_eq_some_iff.mp hcall
    cases heq
    exact h.ngx_pfree hfree
  | resentPool rounds =>
    obtain ⟨t, hreset, heq⟩ := Option.map_eq_some_iff.mp hcall
    cases heq
    have hlarge := resent_pool_large hreset
    exact ⟨by simp [hlarge, allocated], by simp [hlarge, allocated]⟩
  | cleanupAdd n env env' =>
    obtain ⟨u, c, cleanup, hpalloc, rfl | ⟨u', data, hpalloc', rfl⟩⟩ := cleanup_add_cases hcall
    · have hu : Owned u := h.allocate true hpalloc
      exact hu.mono rfl fun _ hr => hr
    · have hu : Owned u := h.allocate true hpalloc
      have hu' : Owned u' := hu.allocate true hpalloc'
      exact hu'.mono rfl fun _ hr => hr

theorem owned_create (size base : UInt64) : Owned (ngx_create_pool size base) := by
  have hlarge : allocated (ngx_create_pool size base).large = [] := rfl
  exact ⟨hlarge ▸ List.nodup_nil, by simp [hlarge]⟩

theorem owned_of_reachable (hs : Reachable step (ngx_create_pool size base) s) :
    Owned s :=
  reachable_invariant (fun _ _ _ h hs => Owned.step h hs) (owned_create size base) hs

/-! ## Calls that fail -/

theorem call_of_large (h : r.memory = some (n, align, env)) (hn : s.max < n) :
    call s r = s.ngx_palloc_large n env := by
  cases r with
  | palloc | pcalloc | pnalloc =>
    cases h
    exact if_neg (UInt64.not_le.mpr hn)
  | pfree | resentPool | cleanupAdd => cases h

/-- Without a node the region stays in use. -/
theorem leaked (h : Owned s) (hn : 0 < n.toNat) (hlarge : env.large ≠ 0)
    (hs : s.ngx_palloc_large n env = some (s', 0)) :
    ⟨env.large, n⟩ ∉ s.regions ∧ ⟨env.large, n⟩ ∈ s'.regions := by
  obtain ⟨hzero, -⟩ | ⟨t, -, hfresh, rfl, ⟨_, -, -, hzero⟩ | ⟨s₂, node, hsmall, hnode⟩⟩ :=
    State.palloc_large_cases hs
  · exact absurd hzero hlarge
  · exact absurd hzero.symm hlarge
  · refine ⟨fun hmem => hfresh.ne hn hmem hn rfl, ?_⟩
    obtain ⟨hkept, hregions⟩ := palloc_small_frame hsmall
    obtain ⟨-, hfree, -⟩ | ⟨-, -, hzero⟩ := hnode
    · -- `ngx_pfree` does not find the region
      have hnone : State.release env.large s₂.large = none := by
        refine release_eq_none ?_ hlarge
        rw [hkept]
        exact h.notMem hfresh hn
      simp only [State.ngx_pfree, hnone, Option.some.injEq] at hfree
      subst hfree
      exact hregions _ List.mem_cons_self
    · exact absurd hzero.symm hlarge

/-- **A large allocation that fails leaves the pool alone exactly if `malloc` fails for the large
region itself.** Where it fails for the block that the node needs, the region is not freed. -/
theorem failed_large_unchanged_iff
    (hs : Reachable step (ngx_create_pool size base) s)
    (hmemory : r.memory = some (n, align, env)) (hn : s.max < n)
    (hcall : call s r = some (s', 0)) : Unchanged s s' ↔ env.large = 0 := by
  rw [call_of_large hmemory hn] at hcall
  constructor
  · intro h
    by_contra hlarge
    obtain ⟨hnotMem, hmem⟩ := leaked (owned_of_reachable hs) (toNat_pos_of_lt hn) hlarge hcall
    exact hnotMem ((h.regions _).mp hmem)
  · intro hlarge
    obtain ⟨-, rfl, -⟩ | ⟨_, hne, -⟩ := State.palloc_large_cases hcall
    · exact ⟨fun _ => Iff.rfl, rfl, rfl, rfl, rfl⟩
    · exact absurd hlarge hne

/-- A request for 100 bytes from a pool of 96 bytes that is used up, while `malloc` returns this
for the region and nothing for a block. -/
def overMax (region : UInt64) : Request := .pnalloc 100 ⟨region, 0, 0, 1⟩

theorem failed_large_unchanged_iff_noRegion : ∃ s s',
    Reachable step (ngx_create_pool 96 4096) s ∧
      call s (overMax 0) = some (s', 0) ∧ Unchanged s s' := by
  have hrun : run step (ngx_create_pool 96 4096) [.palloc 32 ⟨0, 0, 0, 1⟩] =
    some _ := rfl
  exact ⟨_, _, ⟨_, hrun⟩, rfl,
    (failed_large_unchanged_iff (r := overMax 0) ⟨_, hrun⟩ rfl (by decide) rfl).mpr rfl⟩

/-- The region is there, but the block for its node is not. -/
theorem failed_large_leaks : ∃ s s',
    Reachable step (ngx_create_pool 96 4096) s ∧ s.max < 100 ∧
      call s (overMax 8192) = some (s', 0) ∧ s.regions = [⟨4096, 96⟩] ∧
      s'.regions = [⟨8192, 100⟩, ⟨4096, 96⟩] ∧ s'.large = [] ∧ ¬ Unchanged s s' := by
  refine ⟨_, _, ⟨[.palloc 32 ⟨0, 0, 0, 1⟩], rfl⟩, by decide, rfl, rfl, rfl, rfl, fun h => ?_⟩
  have hmem : (⟨8192, 100⟩ : Range) ∈ [(⟨4096, 96⟩ : Range)] :=
    (h.regions ⟨8192, 100⟩).mp List.mem_cons_self
  exact absurd hmem (by decide)

end CppInOne.Pool
