import CppInOne.Pool.LargeRegions
import CppInOne.Pool.SmallAllocations
import Mathlib.Data.List.Pairwise

/-!
# Where a pool has its ranges

The ranges that `ngx_palloc_small` has handed out since the last reset lie behind the header of a
block and before its free space, and blocks do not overlap. So a new range overlaps none of them.

## Main definitions

- `Layout` — a well formed pool, with its ranges in these places
- `Grows` — what an allocation does to a pool, with the ranges that it hands out

## Main results

- `Layout.allocate` — an allocation keeps the layout, and its ranges are new
-/

namespace CppInOne.Pool
open Function Transition

/-- The header of the first block is the whole `ngx_pool_s`. -/
def headerSize (s : State) (a : UInt64) : Nat :=
  if a = s.pool then sizeof_ngx_pool_s.toNat else sizeof_ngx_pool_data_t.toNat

/-- The range lies in the block at `a`, which has been used up to `d.last`. -/
def PlacedAt (s : State) (r : Range) (a : UInt64) (d : PoolData) : Prop :=
  s.data a = some d ∧ a.toNat + headerSize s a ≤ r.addr.toNat ∧ r.stop ≤ d.last.toNat

def Placed (s : State) (r : Range) : Prop := ∃ a d, PlacedAt s r a d

/-- The range lies in a block of this size, used up or not. -/
def InBlock (size : UInt64) (s : State) (r : Range) : Prop :=
  ∃ a d, s.data a = some d ∧ a.toNat + headerSize s a ≤ r.addr.toNat ∧
    r.stop ≤ a.toNat + size.toNat

structure Layout (size : UInt64) (s : State) : Prop where
  wellFormed : ∃ before after, WellFormed size s before after
  regions : s.regions.Pairwise Range.Disjoint
  /-- The first block has its whole header. -/
  first : ∀ d, s.data s.pool = some d → s.pool.toNat + headerSize s s.pool ≤ d.last.toNat
  placed : ∀ r ∈ s.allocs, Placed s r
  max : 32 ≤ s.max.toNat

/-- The ranges of `new` are handed out, and what there was before stays. -/
structure Grows (s s' : State) (new : List Range) : Prop where
  pool : s'.pool = s.pool
  max : s'.max = s.max
  cleanup : s'.cleanup = s.cleanup
  data : ∀ a d, s.data a = some d → ∃ d', s'.data a = some d' ∧ d.last.toNat ≤ d'.last.toNat
  regions : ∀ r ∈ s.regions, r ∈ s'.regions
  disjoint : s.regions.Pairwise Range.Disjoint → s'.regions.Pairwise Range.Disjoint
  allocs : s'.allocs = new ++ s.allocs
  placed : ∀ r ∈ new, Placed s' r
  apart : ∀ r ∈ new, ∀ r' ∈ s.allocs, r'.Disjoint r
  nodes : ∀ l ∈ s'.large, ⟨l.node, sizeof_ngx_pool_large_s⟩ ∈ new ∨ ∃ l' ∈ s.large, l'.node = l.node
  live : ∀ a ∈ allocated s.large, a ∈ allocated s'.large

variable {size base n m p : UInt64} {s s' s'' : State} {new new' : List Range} {a b : UInt64}
  {d e : PoolData} {align : Bool} {env : Env} {rounds : Nat} {r : Range}

/-! ## Ranges -/

theorem Range.Disjoint.symm {r r' : Range} (h : r.Disjoint r') : r'.Disjoint r := Or.symm h

instance : Std.Symm Range.Disjoint := ⟨fun _ _ h => h.symm⟩

/-- Two blocks do not overlap. -/
theorem Layout.blocks (h : Layout size s) (hd : s.data a = some d) (he : s.data b = some e)
    (hab : a ≠ b) : Range.Disjoint ⟨a, size⟩ ⟨b, size⟩ := by
  obtain ⟨before, after, hwell⟩ := h.wellFormed
  refine h.regions.forall (hwell.blockAt hd).region (hwell.blockAt he).region fun heq => ?_
  exact hab (congrArg Range.addr heq)

theorem Layout.size_pos (h : Layout size s) : 96 ≤ size.toNat := by
  obtain ⟨before, after, hwell⟩ := h.wellFormed
  exact hwell.size_pos

/-- The block of a range. -/
theorem Layout.inside (h : Layout size s) (hr : PlacedAt s r a d) :
    a.toNat ≤ r.addr.toNat ∧ r.stop ≤ a.toNat + size.toNat := by
  obtain ⟨hd, hfrom, hto⟩ := hr
  obtain ⟨before, after, hwell⟩ := h.wellFormed
  have hblock := hwell.blockAt hd
  have hlast : d.last.toNat ≤ d.end_.toNat := UInt64.le_iff_toNat_le.mp hblock.last
  have hend := hblock.end_
  omega

theorem headerSize_le (s : State) (a : UInt64) :
    32 ≤ headerSize s a ∧ headerSize s a ≤ 64 := by
  unfold headerSize
  split <;> decide

/-- A range stays in its block as long as the pool keeps the block. -/
theorem InBlock.mono (h : InBlock size s r) (hpool : s'.pool = s.pool)
    (hdata : ∀ a, (s.data a).isSome = true → (s'.data a).isSome = true) : InBlock size s' r := by
  obtain ⟨a, d, hd, hfrom, hto⟩ := h
  obtain ⟨d', hd'⟩ := Option.isSome_iff_exists.mp (hdata a (by rw [hd]; rfl))
  refine ⟨a, d', hd', ?_, hto⟩
  rw [headerSize] at hfrom ⊢
  rwa [hpool]

theorem Layout.inBlock (h : Layout size s) (hr : Placed s r) : InBlock size s r := by
  obtain ⟨a, d, hplaced⟩ := hr
  exact ⟨a, d, hplaced.1, hplaced.2.1, (h.inside hplaced).2⟩

/-- A range does not overlap the header of any block. -/
theorem Layout.header (h : Layout size s) (hr : InBlock size s r) (he : s.data b = some e) :
    b.toNat + headerSize s b ≤ r.addr.toNat ∨ r.stop ≤ b.toNat := by
  obtain ⟨a, d, hd, hfrom, hto⟩ := hr
  obtain rfl | hab := eq_or_ne a b
  · exact Or.inl hfrom
  · have hsize := h.size_pos
    have hheader := (headerSize_le s b).2
    have hdisjoint : a.toNat + size.toNat ≤ b.toNat ∨ b.toNat + size.toNat ≤ a.toNat :=
      h.blocks hd he hab
    omega

/-- A range does not overlap a region that is not a block. -/
theorem Layout.region (h : Layout size s) (hr : InBlock size s r) {q : Range}
    (hq : q ∈ s.regions) (hblock : s.data q.addr = none) : r.Disjoint q := by
  obtain ⟨a, d, hd, hfrom, hto⟩ := hr
  obtain ⟨before, after, hwell⟩ := h.wellFormed
  have hne : (⟨a, size⟩ : Range) ≠ q := by
    rintro rfl
    rw [hd] at hblock
    cases hblock
  have hdisjoint : a.toNat + size.toNat ≤ q.addr.toNat ∨ q.stop ≤ a.toNat :=
    h.regions.forall (hwell.blockAt hd).region hq hne
  show r.stop ≤ q.addr.toNat ∨ q.stop ≤ r.addr.toNat
  omega

/-! ## Growing -/

theorem Grows.refl (s : State) : Grows s s [] where
  pool := rfl
  max := rfl
  cleanup := rfl
  data := fun _ d hd => ⟨d, hd, Nat.le_refl _⟩
  regions := fun _ hr => hr
  disjoint := id
  allocs := rfl
  placed := fun _ hr => absurd hr List.not_mem_nil
  apart := fun _ hr => absurd hr List.not_mem_nil
  nodes := fun l hl => Or.inr ⟨l, hl, rfl⟩
  live := fun _ ha => ha

theorem Grows.mem_of_new (h : Grows s s' new) (hr : r ∈ new) : r ∈ s'.allocs := by
  rw [h.allocs]
  exact List.mem_append_left _ hr

theorem Grows.mem_of_old (h : Grows s s' new) (hr : r ∈ s.allocs) : r ∈ s'.allocs := by
  rw [h.allocs]
  exact List.mem_append_right _ hr

theorem Grows.headerSize (h : Grows s s' new) (a : UInt64) :
    headerSize s' a = headerSize s a := by
  rw [Pool.headerSize, Pool.headerSize, h.pool]

theorem Grows.keep (h : Grows s s' new) (hr : Placed s r) : Placed s' r := by
  obtain ⟨a, d, hd, hfrom, hto⟩ := hr
  obtain ⟨d', hd', hle⟩ := h.data a d hd
  exact ⟨a, d', hd', by rwa [h.headerSize], Nat.le_trans hto hle⟩

theorem Grows.inBlock (h : Grows s s' new) (hr : InBlock size s r) : InBlock size s' r := by
  refine hr.mono h.pool fun a ha => ?_
  obtain ⟨d, hd⟩ := Option.isSome_iff_exists.mp ha
  obtain ⟨d', hd', -⟩ := h.data a d hd
  rw [hd']
  rfl

theorem Grows.trans (h : Grows s s' new) (h' : Grows s' s'' new') :
    Grows s s'' (new' ++ new) where
  pool := h'.pool.trans h.pool
  max := h'.max.trans h.max
  cleanup := h'.cleanup.trans h.cleanup
  data := by
    intro a d hd
    obtain ⟨d', hd', hle⟩ := h.data a d hd
    obtain ⟨d'', hd'', hle'⟩ := h'.data a d' hd'
    exact ⟨d'', hd'', Nat.le_trans hle hle'⟩
  regions := fun r hr => h'.regions r (h.regions r hr)
  disjoint := fun hr => h'.disjoint (h.disjoint hr)
  allocs := by rw [h'.allocs, h.allocs, List.append_assoc]
  placed := by
    intro r hr
    obtain hr | hr := List.mem_append.mp hr
    · exact h'.placed r hr
    · exact h'.keep (h.placed r hr)
  apart := by
    intro r hr r' hr'
    obtain hr | hr := List.mem_append.mp hr
    · exact h'.apart r hr r' (h.mem_of_old hr')
    · exact h.apart r hr r' hr'
  nodes := by
    intro l hl
    obtain hnew | ⟨l', hl', hnode⟩ := h'.nodes l hl
    · exact Or.inl (List.mem_append_left _ hnew)
    · obtain hnew | ⟨l'', hl'', hnode'⟩ := h.nodes l' hl'
      · exact Or.inl (List.mem_append_right _ (hnode ▸ hnew))
      · exact Or.inr ⟨l'', hl'', hnode'.trans hnode⟩
  live := fun a ha => h'.live a (h.live a ha)

/-- A pool that has grown keeps its layout if it is still well formed. -/
theorem Layout.grow (h : Layout size s) (hgrows : Grows s s' new)
    (hwell : ∃ before after, WellFormed size s' before after) : Layout size s' where
  wellFormed := hwell
  regions := hgrows.disjoint h.regions
  first := by
    intro d' hd'
    obtain ⟨before, after, hold⟩ := h.wellFormed
    obtain ⟨d, hd⟩ := hold.block s.pool
      (hold.pool_mem (List.append_ne_nil_of_right_ne_nil before hold.nonempty))
    obtain ⟨e, he, hle⟩ := hgrows.data s.pool d hd.data
    rw [hgrows.pool] at hd' ⊢
    obtain rfl := Option.some.inj (he.symm.trans hd')
    rw [hgrows.headerSize]
    exact Nat.le_trans (h.first d hd.data) hle
  placed := by
    intro r hr
    rw [hgrows.allocs] at hr
    obtain hr | hr := List.mem_append.mp hr
    · exact hgrows.placed r hr
    · exact hgrows.keep (h.placed r hr)
  max := hgrows.max ▸ h.max

/-! ## Small allocations -/

/-- The rest of a block begins behind its header. -/
theorem Layout.header_le (h : Layout size s) (hd : s.data b = some d) :
    b.toNat + headerSize s b ≤ d.last.toNat := by
  obtain ⟨before, after, hwell⟩ := h.wellFormed
  unfold headerSize
  split
  · rename_i hb
    subst hb
    have hfirst := h.first d hd
    rwa [headerSize, if_pos rfl] at hfirst
  · exact (hwell.blockAt hd).header

theorem Layout.handOut (h : Layout size s) (hd : s.data b = some d) (hlast : d.last ≤ m)
    (hend : m.toNat + n.toNat ≤ d.end_.toNat) : Grows s (s.handOut b d m n) [⟨m, n⟩] := by
  have hadd : (m + n).toNat = m.toNat + n.toNat :=
    toNat_add (Nat.lt_of_le_of_lt hend d.end_.toNat_lt)
  have hle : d.last.toNat ≤ m.toNat := UInt64.le_iff_toNat_le.mp hlast
  have hheader := h.header_le hd
  refine ⟨rfl, rfl, rfl, fun a e he => ?_, fun _ hr => hr, id, rfl, ?_, ?_,
    fun l hl => Or.inr ⟨l, hl, rfl⟩, fun _ ha => ha⟩
  · obtain rfl | hab := eq_or_ne a b
    · obtain rfl := Option.some.inj (hd.symm.trans he)
      refine ⟨_, update_self _ _ _, ?_⟩
      show d.last.toNat ≤ (m + n).toNat
      omega
    · exact ⟨e, (update_of_ne hab _ _).trans he, Nat.le_refl _⟩
  · refine List.forall_mem_singleton.mpr ⟨b, _, update_self _ _ _, ?_, Nat.le_of_eq hadd.symm⟩
    exact Nat.le_trans hheader hle
  · refine List.forall_mem_singleton.mpr fun r hr => ?_
    obtain ⟨a, e, hplaced⟩ := h.placed r hr
    show r.stop ≤ m.toNat ∨ m.toNat + n.toNat ≤ r.addr.toNat
    obtain rfl | hab := eq_or_ne a b
    · -- in the same block it lies before the free space
      obtain rfl := Option.some.inj (hd.symm.trans hplaced.1)
      exact Or.inl (Nat.le_trans hplaced.2.2 hle)
    · obtain ⟨before, after, hwell⟩ := h.wellFormed
      obtain ⟨hfrom, hto⟩ := h.inside hplaced
      have hstop := (hwell.blockAt hd).end_
      have hdisjoint : a.toNat + size.toNat ≤ b.toNat ∨ b.toNat + size.toNat ≤ a.toNat :=
        h.blocks hplaced.1 hd hab
      omega

/-- A new block lies outside of all others. -/
theorem Layout.palloc_block (h : Layout size s) (hn : n.toNat + 64 ≤ size.toNat)
    (hs : s.ngx_palloc_block n env = some (s', m)) (hp : env.block = 0 ∨ env.p = env.block) :
    m = 0 ∧ s' = s ∨ m ≠ 0 ∧ Grows s s' [⟨m, n⟩] := by
  obtain ⟨before, after, hwell⟩ := h.wellFormed
  by_cases hblock : env.block = 0
  · obtain ⟨-, rfl, rfl⟩ | ⟨_, _, _, _, -, hne, -⟩ := State.palloc_block_cases hs
    · exact Or.inl ⟨rfl, rfl⟩
    · exact absurd hblock hne
  have hcleanup : s'.cleanup = s.cleanup := by
    obtain ⟨hzero, -⟩ | ⟨_, counted, _, _, -, -, -, -, -, hcount, -, rfl⟩ :=
      State.palloc_block_cases hs
    · exact absurd hzero hblock
    · exact (State.countFailures_frame hcount).2.2.2.1
  obtain ⟨hfresh, hplace, l, q, passed, rest, new, rfl, hgrowth, hlast, hend, -, -, -, hpool, hmax,
    hlarge, hregions, hallocs⟩ :=
    palloc_block_growth hwell hn hs hblock (hp.resolve_left hblock)
  have hsize := hwell.size_pos
  have hnotMem := hwell.notMem_of_fresh hfresh (Nat.zero_lt_of_lt hsize)
  -- the new block is none of those that are there
  have hother : ∀ a d, s.data a = some d → a ≠ env.block := by
    rintro a d hd rfl
    exact hnotMem (hwell.domain _ d hd)
  refine Or.inr ⟨?_, hpool, hmax, hcleanup, fun a d hd => ?_, fun r hr => ?_, fun hdisjoint => ?_,
    hallocs, ?_, ?_, fun l hl => Or.inr ⟨l, hlarge ▸ hl, rfl⟩, fun a ha => hlarge ▸ ha⟩
  · rintro rfl
    have hzero : (0 : UInt64).toNat = 0 := rfl
    omega
  · obtain ⟨d', hd', hsame, -⟩ := hgrowth.old (hother a d hd) hd
    exact ⟨d', hd', Nat.le_of_eq (congrArg UInt64.toNat hsame.symm)⟩
  · rw [hregions]
    exact List.mem_cons_of_mem _ hr
  · rw [hregions]
    exact List.pairwise_cons.mpr ⟨fun r hr => hfresh.2.2.2 r hr, hdisjoint⟩
  · refine List.forall_mem_singleton.mpr ⟨env.block, new, hgrowth.block, ?_,
      Nat.le_of_eq hlast.symm⟩
    have hfirst : env.block ≠ s'.pool := by
      rw [hpool]
      obtain ⟨d, hd⟩ := hwell.block s.pool (hwell.pool_mem (by simp))
      exact (hother _ d hd.data).symm
    rw [headerSize, if_neg hfirst]
    exact Nat.le_of_eq hplace.symm
  · -- an older allocation lies in another block
    refine List.forall_mem_singleton.mpr fun r hr => ?_
    obtain ⟨a, e, hplaced⟩ := h.placed r hr
    obtain ⟨hfrom, hto⟩ := h.inside hplaced
    have hdisjoint : env.block.toNat + size.toNat ≤ a.toNat ∨
        a.toNat + size.toNat ≤ env.block.toNat :=
      hfresh.2.2.2 _ (hwell.blockAt hplaced.1).region
    show r.stop ≤ m.toNat ∨ m.toNat + n.toNat ≤ r.addr.toNat
    omega

theorem Layout.palloc_small (h : Layout size s) (hn : n.toNat + 64 ≤ size.toNat)
    (hs : s.ngx_palloc_small n align env = some (s', m)) (hfine : Fine s') :
    m = 0 ∧ s' = s ∨ m ≠ 0 ∧ Grows s s' [⟨m, n⟩] := by
  obtain ⟨-, ⟨b, d, hd, hlast, hend, rfl⟩ | ⟨hblock, hp⟩⟩ := palloc_small_cases hs hfine
  · refine Or.inr ⟨?_, h.handOut hd hlast hend⟩
    rintro rfl
    have hheader := h.header_le hd
    have hsize := (headerSize_le s b).1
    have hle : d.last.toNat ≤ (0 : UInt64).toNat := UInt64.le_iff_toNat_le.mp hlast
    have hzero : (0 : UInt64).toNat = 0 := rfl
    omega
  · exact h.palloc_block hn hblock hp

/-! ## Large allocations -/

theorem WellFormed.owned {before after : List UInt64} (h : WellFormed size s before after) :
    Owned s := by
  constructor
  · rw [List.Nodup, allocated, List.pairwise_filter, List.pairwise_map]
    refine h.large_ne.imp fun hne hx _ => hne ?_
    simpa using hx
  · intro a ha
    obtain ⟨l, hl, rfl, hne⟩ := mem_allocated.mp ha
    obtain ⟨-, k, hk⟩ := h.large l hl hne
    exact ⟨k, hk, (h.regions _ hk).2.2⟩

/-- Memory that is not for a block. -/
theorem Layout.malloc (h : Layout size s) (hfresh : Fresh s.regions ⟨p, n⟩) (hn : 0 < n.toNat) :
    Layout size { s with regions := ⟨p, n⟩ :: s.regions } ∧
      Grows s { s with regions := ⟨p, n⟩ :: s.regions } [] := by
  have hgrows : Grows s { s with regions := ⟨p, n⟩ :: s.regions } [] :=
    { Grows.refl s with
      regions := fun r hr => List.mem_cons_of_mem _ hr
      disjoint := fun hr => List.pairwise_cons.mpr ⟨fun r hin => hfresh.2.2.2 r hin, hr⟩ }
  obtain ⟨before, after, hwell⟩ := h.wellFormed
  exact ⟨h.grow hgrows ⟨before, after, hwell.malloc hfresh hn⟩, hgrows⟩

/-- The nodes get one more region, in an old node or in a new one. -/
theorem Grows.setLarge {large : List Large} (h : Grows s s' new)
    (hnodes : ∀ l ∈ large, ⟨l.node, sizeof_ngx_pool_large_s⟩ ∈ new ∨
      ∃ l' ∈ s'.large, l'.node = l.node)
    (hlive : ∀ a ∈ allocated s'.large, a ∈ allocated large) :
    Grows s { s' with large } new :=
  { h with
    nodes := by
      intro l hl
      obtain hnew | ⟨l', hl', hnode⟩ := hnodes l hl
      · exact Or.inl hnew
      · rw [← hnode]
        exact h.nodes l' hl'
    placed := h.placed
    live := fun a ha => hlive a (h.live a ha) }

theorem Layout.palloc_large (h : Layout size s) (hn : 0 < n.toNat)
    (hs : s.ngx_palloc_large n env = some (s', m)) (hfine : Fine s') :
    ∃ new, Grows s s' new ∧ (m ≠ 0 → ⟨m, n⟩ ∈ s'.regions ∧ m ∈ allocated s'.large) := by
  obtain ⟨-, rfl, rfl⟩ | ⟨t, hlarge, hfresh, rfl, hnode⟩ := State.palloc_large_cases hs
  · exact ⟨[], Grows.refl _, fun hne => absurd rfl hne⟩
  obtain ⟨hlayout, hgrows⟩ := h.malloc hfresh hn
  obtain ⟨large, hreuse, rfl, rfl⟩ | ⟨s₂, node, hsmall, hnode⟩ := hnode
  · have hperm := reuse_perm hlarge hreuse
    obtain ⟨l₁, node, l₂, hsplit, rfl⟩ := reuse_eq_some hreuse
    refine ⟨[], hgrows.setLarge (fun l hl => Or.inr ?_) fun a ha =>
      hperm.symm.subset (List.mem_cons_of_mem _ ha), fun _ => ⟨List.mem_cons_self,
      hperm.symm.subset List.mem_cons_self⟩⟩
    show ∃ l' ∈ s.large, l'.node = l.node
    rw [hsplit]
    exact exists_node hl
  · have hsize := h.size_pos
    have hroom : sizeof_ngx_pool_large_s.toNat + 64 ≤ size.toNat := by
      show 16 + 64 ≤ size.toNat
      omega
    have hstep := hlayout.palloc_small hroom hsmall (fine_of_node hfine hnode)
    obtain ⟨rfl, hfree, rfl⟩ | ⟨hnode, rfl, rfl⟩ := hnode
    · -- no node: the region is not found
      obtain ⟨-, rfl⟩ := hstep.resolve_right fun hne => hne.1 rfl
      obtain ⟨before, after, hwell⟩ := h.wellFormed
      have hnone : State.release env.large s.large = none :=
        release_eq_none (hwell.owned.notMem hfresh hn) hlarge
      simp only [State.ngx_pfree, hnone, Option.some.injEq] at hfree
      exact ⟨[], hfree ▸ hgrows, fun hne => absurd rfl hne⟩
    · obtain ⟨-, hsmall⟩ := hstep.resolve_left fun hzero => hnode hzero.1
      have hafter : Grows s s₂ [⟨node, sizeof_ngx_pool_large_s⟩] := hgrows.trans hsmall
      have hlive : allocated (⟨node, env.large⟩ :: s₂.large) = env.large :: allocated s₂.large :=
        allocated_cons hlarge
      refine ⟨_, hafter.setLarge (fun l hl => ?_) fun a ha => ?_, fun _ => ⟨?_, ?_⟩⟩
      · obtain rfl | hl := List.mem_cons.mp hl
        · exact Or.inl List.mem_cons_self
        · exact Or.inr ⟨l, hl, rfl⟩
      · rw [hlive]
        exact List.mem_cons_of_mem _ ha
      · exact hsmall.regions _ List.mem_cons_self
      · rw [hlive]
        exact List.mem_cons_self

/-- The ranges that an allocation hands out are new, and the caller gets one of them. -/
theorem Layout.allocate (h : Layout size s) (align : Bool)
    (hs : (if n ≤ s.max then s.ngx_palloc_small n align env else s.ngx_palloc_large n env) =
      some (s', m)) (hfine : Fine s') :
    ∃ new, Layout size s' ∧ Grows s s' new ∧
      (m ≠ 0 → if n ≤ s.max then ⟨m, n⟩ ∈ new
        else ⟨m, n⟩ ∈ s'.regions ∧ m ∈ allocated s'.large) := by
  obtain ⟨before, after, hwell⟩ := h.wellFormed
  have hafter := hwell.allocate align hfine hs
  split at hs
  · rename_i hn
    obtain ⟨rfl, rfl⟩ | ⟨hne, hgrows⟩ := h.palloc_small (hwell.room hn) hs hfine
    · exact ⟨[], h, Grows.refl _, fun hne => absurd rfl hne⟩
    · refine ⟨_, h.grow hgrows hafter, hgrows, fun _ => ?_⟩
      rw [if_pos hn]
      exact List.mem_cons_self
  · rename_i hn
    obtain ⟨new, hgrows, hm⟩ :=
      h.palloc_large (toNat_pos_of_lt (UInt64.not_le.mp hn)) hs hfine
    refine ⟨new, h.grow hgrows hafter, hgrows, fun hne => ?_⟩
    rw [if_neg hn]
    exact hm hne

/-! ## Freeing and resetting -/

/-- `ngx_pfree` does nothing, or takes a region from its node. -/
theorem pfree_cases (hs : s.ngx_pfree p = some s') :
    s' = s ∨ p ∈ allocated s.large ∧ ∃ large, State.release p s.large = some large ∧
      s' = { s with large, regions := s.regions.filter (·.addr ≠ p) } := by
  simp only [State.ngx_pfree, State.free] at hs
  split at hs
  · cases hs
    exact Or.inl rfl
  · rename_i large hrelease
    split at hs
    · rename_i hp
      subst hp
      cases hs
      rw [release_zero hrelease]
      exact Or.inl rfl
    · rename_i hp
      split at hs
      · cases hs
        have hmem := (release_perm hp hrelease).symm.subset List.mem_cons_self
        exact Or.inr ⟨hmem, large, hrelease, rfl⟩
      · cases hs

/-- What stays when a region is freed, and what else. -/
structure Frees (s s' : State) (p : UInt64) : Prop where
  pool : s'.pool = s.pool
  cleanup : s'.cleanup = s.cleanup
  data : s'.data = s.data
  allocs : s'.allocs = s.allocs
  nodes : ∀ l ∈ s'.large, ∃ l' ∈ s.large, l'.node = l.node
  regions : ∀ r ∈ s.regions, p ∉ allocated s.large ∨ r.addr ≠ p → r ∈ s'.regions
  live : ∀ a ∈ allocated s.large, a ≠ p → a ∈ allocated s'.large

theorem Layout.ngx_pfree (h : Layout size s) (hs : s.ngx_pfree p = some s') :
    Layout size s' ∧ Frees s s' p := by
  obtain ⟨before, after, hwell⟩ := h.wellFormed
  have hafter := hwell.ngx_pfree hs
  obtain rfl | ⟨hmem, large, hrelease, rfl⟩ := pfree_cases hs
  · exact ⟨h, rfl, rfl, rfl, rfl, fun l hl => ⟨l, hl, rfl⟩, fun _ hr _ => hr, fun _ ha _ => ha⟩
  · refine ⟨⟨⟨before, after, hafter⟩, h.regions.filter _, h.first, h.placed, h.max⟩, rfl, rfl, rfl,
      rfl, fun l hl => ?_, fun r hr hor => ?_, fun a ha hne => ?_⟩
    · obtain ⟨l₁, node, l₂, hsplit, rfl⟩ := release_eq_some hrelease
      rw [hsplit]
      exact exists_node hl
    · have hne := hor.resolve_left (not_not.mpr hmem)
      exact List.mem_filter.mpr ⟨hr, by simpa using hne⟩
    · obtain ⟨-, -, -, hp⟩ := mem_allocated.mp hmem
      exact (List.mem_cons.mp ((release_perm hp hrelease).subset ha)).resolve_left hne

theorem Frees.inBlock (h : Frees s s' p) (hr : InBlock size s r) : InBlock size s' r :=
  hr.mono h.pool fun a ha => by rwa [h.data]

/-- The second loop of `ngx_resent_pool` only changes the headers that it comes to. -/
theorem resetBlocks_other {l : List UInt64} (hchain : Chain (links s.data) 0 p l) (ha : a ∉ l)
    (hs : s.resetBlocks rounds p = some s') :
    s'.data a = s.data a ∧ s'.cleanup = s.cleanup := by
  induction rounds generalizing s p l with
  | zero => cases hs
  | succ rounds ih =>
    simp only [State.resetBlocks] at hs
    split at hs
    · cases hs
      exact ⟨rfl, rfl⟩
    · rename_i hp
      split at hs
      · cases hs
      · rename_i d hd
        cases l with
        | nil => exact absurd (Chain.nil_iff.mp hchain) hp
        | cons b l =>
          obtain ⟨rfl, e, he, htail⟩ := chain_cons hchain
          obtain rfl := Option.some.inj (hd.symm.trans he)
          have hlinks : links (s.setData p
              { d with last := p + sizeof_ngx_pool_data_t, failed := 0 }).data = links s.data :=
            links_update hd rfl
          rw [← hlinks] at htail
          obtain ⟨hap, hal⟩ := List.ne_and_not_mem_of_not_mem_cons ha
          obtain ⟨hdata, hcleanup⟩ := ih htail hal hs
          exact ⟨hdata.trans (update_of_ne hap _ _), hcleanup⟩

/-- It removes no header. -/
theorem resetBlocks_isSome (ha : (s.data a).isSome = true)
    (hs : s.resetBlocks rounds p = some s') : (s'.data a).isSome = true := by
  induction rounds generalizing s p with
  | zero => cases hs
  | succ rounds ih =>
    simp only [State.resetBlocks] at hs
    split at hs
    · cases hs
      exact ha
    · split at hs
      · cases hs
      · refine ih ?_ hs
        simp only [State.setData, update_apply]
        split
        · rfl
        · exact ha

/-- It does not come back to the first header. -/
theorem WellFormed.resetBlocks_first {before after : List UInt64}
    (h : WellFormed size s before after) (hd : s.data s.pool = some d)
    (hs : (s.setData s.pool e).resetBlocks rounds d.next = some s') (hnext : e.next = d.next) :
    s'.data s.pool = some e ∧ s'.cleanup = s.cleanup := by
  have hchain := h.chain
  obtain ⟨first, rest, hsplit⟩ := List.exists_cons_of_ne_nil
    (List.append_ne_nil_of_right_ne_nil before h.nonempty)
  rw [hsplit] at hchain
  have hnodup := hchain.nodup
  obtain ⟨rfl, d', hd', htail⟩ := chain_cons hchain
  obtain rfl := Option.some.inj (hd.symm.trans hd')
  have hlinks : links (s.setData s.pool e).data = links s.data := links_update hd hnext
  rw [← hlinks] at htail
  obtain ⟨hsame, hkept⟩ := resetBlocks_other htail (List.nodup_cons.mp hnodup).1 hs
  exact ⟨hsame.trans (update_self _ _ _), hkept⟩

/-- A reset leaves nothing handed out; the blocks and the cleanups stay. -/
theorem Layout.resent_pool (h : Layout size s) (hs : s.ngx_resent_pool rounds = some s') :
    Layout size s' ∧ s'.cleanup = s.cleanup ∧ s'.large = [] ∧ s'.allocs = [] ∧
      ∀ r, InBlock size s r → InBlock size s' r := by
  obtain ⟨before, after, hwell⟩ := h.wellFormed
  obtain ⟨after', hafter⟩ := hwell.resent_pool hs
  obtain ⟨t, d, u, hlarges, hd, hloop, rfl⟩ := resent_pool_cases hs
  obtain ⟨ht, htpool, hcleanup, hdata⟩ :=
    resetLarges (I := fun t => Layout size t ∧ t.pool = s.pool ∧ t.cleanup = s.cleanup ∧
      t.data = s.data) (fun v v' p hv hp => by
        obtain ⟨hlayout, hfrees⟩ := hv.1.ngx_pfree hp
        exact ⟨hlayout, hfrees.pool.trans hv.2.1, hfrees.cleanup.trans hv.2.2.1,
          hfrees.data.trans hv.2.2.2⟩) ⟨h, rfl, rfl, rfl⟩ _ hlarges
  obtain ⟨hpool, hmax, hregions, -⟩ := resetBlocks_frame hloop
  have hpool : u.pool = t.pool := hpool
  obtain ⟨_, _, hmiddle⟩ := ht.wellFormed
  obtain ⟨hfirst, hkept⟩ := hmiddle.resetBlocks_first hd hloop rfl
  refine ⟨⟨⟨[], after', hafter⟩, hregions ▸ ht.regions, fun d' hd' => ?_, by simp,
    hmax ▸ ht.max⟩, hkept.trans hcleanup, rfl, rfl, fun r hr => ?_⟩
  · have hd' : u.data u.pool = some d' := hd'
    rw [hpool, hfirst] at hd'
    cases hd'
    have hend := (hmiddle.blockAt hd).end_
    have hsize := ht.size_pos
    have hlt := d.end_.toNat_lt
    have hlast := toNat_add_pool_s (p := t.pool) (by omega)
    rw [headerSize, if_pos rfl]
    show u.pool.toNat + 64 ≤ (t.pool + sizeof_ngx_pool_s).toNat
    rw [hlast, hpool]
  · refine hr.mono (hpool.trans htpool) fun a ha => ?_
    show (u.data a).isSome = true
    refine resetBlocks_isSome ?_ hloop
    simp only [State.setData, update_apply, hdata]
    split
    · rfl
    · exact ha

/-! ## Cleanups -/

theorem Layout.setCleanup (h : Layout size s) (cleanup : List Cleanup) :
    Layout size { s with cleanup } := by
  obtain ⟨before, after, hwell⟩ := h.wellFormed
  exact ⟨⟨before, after, hwell.setCleanup cleanup⟩, h.regions, h.first, h.placed, h.max⟩

/-- What is linked in `ngx_pool_cleanup_add`: a node, with a range for the data behind it. -/
structure Linked (size : UInt64) (s s' : State) (n m data : UInt64) : Prop where
  layout : Layout size s'
  ne : m ≠ 0
  cleanup : s'.cleanup = ⟨m, data⟩ :: s.cleanup
  grows : ∃ t, Grows s t [⟨m, sizeof_ngx_pool_cleanup_s⟩] ∧ Layout size t ∧
    ∃ new, Grows t { s' with cleanup := s.cleanup } new ∧
      (n ≠ 0 → if n ≤ s.max then ⟨data, n⟩ ∈ new
        else ⟨data, n⟩ ∈ s'.regions ∧ data ∈ allocated s'.large)

/-- The node comes from a block. -/
theorem Layout.palloc_node (h : Layout size s)
    (hs : s.ngx_palloc sizeof_ngx_pool_cleanup_s env = some (s', m)) (hfine : Fine s') :
    Layout size s' ∧ ∃ new, Grows s s' new ∧
      (m ≠ 0 → new = [⟨m, sizeof_ngx_pool_cleanup_s⟩]) := by
  have hmax : sizeof_ngx_pool_cleanup_s ≤ s.max := by
    rw [UInt64.le_iff_toNat_le]
    exact Nat.le_trans (by decide) h.max
  rw [State.ngx_palloc, if_pos hmax] at hs
  obtain ⟨before, after, hwell⟩ := h.wellFormed
  obtain ⟨rfl, rfl⟩ | ⟨-, hgrows⟩ := h.palloc_small (hwell.room hmax) hs hfine
  · exact ⟨h, [], Grows.refl _, fun hne => absurd rfl hne⟩
  · obtain ⟨before', after', hafter, -⟩ := hwell.palloc_small (hwell.room hmax) hs hfine
    exact ⟨h.grow hgrows ⟨before', after', hafter⟩, _, hgrows, fun _ => rfl⟩

/-- Either nothing is linked, or a node is. -/
theorem Layout.cleanup_add {env' : Env} (h : Layout size s)
    (hs : s.ngx_pool_cleanup_add n env env' = some (s', m)) (hfine : Fine s') :
    (m = 0 ∧ ∃ new, Layout size s' ∧ Grows s s' new) ∨ ∃ data, Linked size s s' n m data := by
  simp only [State.ngx_pool_cleanup_add] at hs
  split at hs
  · cases hs
  rename_i t c hpalloc
  split at hs
  · cases hs
    obtain ⟨hlayout, new, hgrows, -⟩ := h.palloc_node hpalloc hfine
    exact Or.inl ⟨rfl, new, hlayout, hgrows⟩
  rename_i hc
  split at hs
  · -- no data
    rename_i hn
    cases hs
    obtain ⟨hlayout, new, hgrows, hnew⟩ := h.palloc_node hpalloc hfine
    obtain rfl := hnew hc
    refine Or.inr ⟨0, hlayout.setCleanup _, hc, by rw [hgrows.cleanup], t, hgrows, hlayout, [],
      ?_, fun hne => absurd hn hne⟩
    rw [← hgrows.cleanup]
    exact Grows.refl t
  rename_i hn
  split at hs
  · cases hs
  rename_i u data hdata
  split at hs
  · cases hs
    have ht : Fine t := allocate_fine true hfine hdata
    obtain ⟨hlayout, new, hgrows, -⟩ := h.palloc_node hpalloc ht
    obtain ⟨new', hlayout', hgrows', -⟩ := hlayout.allocate true hdata hfine
    exact Or.inl ⟨rfl, _, hlayout', hgrows.trans hgrows'⟩
  · rename_i hne
    cases hs
    have hu : Fine u := hfine
    have ht : Fine t := allocate_fine true hu hdata
    obtain ⟨hlayout, new, hgrows, hnew⟩ := h.palloc_node hpalloc ht
    obtain rfl := hnew hc
    obtain ⟨new', hlayout', hgrows', hheld⟩ := hlayout.allocate true hdata hu
    have hcleanup : u.cleanup = s.cleanup := hgrows'.cleanup.trans hgrows.cleanup
    refine Or.inr ⟨data, hlayout'.setCleanup _, hc, by rw [hcleanup], t, hgrows, hlayout, new',
      ?_, fun _ => ?_⟩
    · rw [← hcleanup]
      exact hgrows'
    · rw [← hgrows.max]
      exact hheld hne

/-- A call has only been fine if everything before has. -/
theorem fine_of_call {r : Request} (hs : call s r = some (s', m)) (hfine : Fine s') : Fine s := by
  cases r with
  | palloc n env | pcalloc n env => exact allocate_fine true hfine hs
  | pnalloc n env => exact allocate_fine false hfine hs
  | pfree p =>
    obtain ⟨t, hfree, heq⟩ := Option.map_eq_some_iff.mp hs
    cases heq
    rw [Fine, ← pfree_trace hfree]
    exact hfine
  | resentPool rounds =>
    obtain ⟨t, hreset, heq⟩ := Option.map_eq_some_iff.mp hs
    cases heq
    rw [Fine, ← resent_pool_trace hreset]
    exact hfine
  | cleanupAdd n env env' =>
    obtain ⟨u, c, cleanup, hpalloc, rfl | ⟨u', data, hpalloc', rfl⟩⟩ := cleanup_add_cases hs
    · have hu : Fine u := hfine
      exact allocate_fine true hu hpalloc
    · have hu' : Fine u' := hfine
      exact allocate_fine true (allocate_fine true hu' hpalloc') hpalloc

theorem layout_create (hsize : NGX_MIN_POOL_SIZE ≤ size) (hbase : Fresh [] ⟨base, size⟩) :
    Layout size (ngx_create_pool size base) := by
  obtain ⟨d, hbump⟩ := bump_create hsize hbase
  refine ⟨⟨[], [base], wellFormed_create hsize hbase⟩, List.pairwise_singleton _ _,
    fun e he => ?_, by simp [ngx_create_pool], hbump.max⟩
  obtain rfl := Option.some.inj (hbump.data.symm.trans he)
  rw [headerSize, if_pos rfl]
  exact hbump.header

end CppInOne.Pool
