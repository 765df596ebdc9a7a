import CppInOne.Pool.NgxMemPool

/-!
# The chain of blocks

What the headers of the blocks of a pool say, and how they change when a place in a block is
handed out, when a large region is freed and when the pool grows.

## Main definitions

- `WellFormed` — the blocks in their order, and which of them `current` has passed

## Main results

- `WellFormed.palloc_block` — a pool that grows by what `malloc` returns stays well formed
-/

namespace CppInOne.Pool
open Function Alignment

/-- The pointers `d.next`. -/
def links (data : UInt64 → Option PoolData) (a : UInt64) : Option UInt64 :=
  (data a).map (·.next)

/-- The counters `d.failed`. -/
def failures (data : UInt64 → Option PoolData) (a : UInt64) : Nat :=
  ((data a).map (·.failed.toNat)).getD 0

/-- The header `d` at `a` delimits free space of a block that has `size` bytes. -/
structure BlockAt (size : UInt64) (data : UInt64 → Option PoolData) (regions : List Range)
    (a : UInt64) (d : PoolData) : Prop where
  data : data a = some d
  region : ⟨a, size⟩ ∈ regions
  end_ : d.end_.toNat = a.toNat + size.toNat
  header : a.toNat + 32 ≤ d.last.toNat
  last : d.last ≤ d.end_

/-- These are the blocks of the pool. -/
structure Blocks (size : UInt64) (s : State) (blocks : List UInt64) : Prop where
  chain : Chain (links s.data) 0 s.pool blocks
  block : ∀ a ∈ blocks, ∃ d, BlockAt size s.data s.regions a d
  domain : ∀ a d, s.data a = some d → a ∈ blocks

/-- A large region that is in use is not a block. -/
def Live (s : State) (blocks : List UInt64) (a : UInt64) : Prop :=
  a ∉ blocks ∧ ∃ n, ⟨a, n⟩ ∈ s.regions

structure WellFormed (size : UInt64) (s : State) (before after : List UInt64) : Prop extends
    Blocks size s (before ++ after) where
  min : NGX_MIN_POOL_SIZE ≤ size
  max : s.max.toNat + 64 ≤ size.toNat ∧ s.max ≤ NGX_MAX_ALLOC_FROM_POOL
  /-- The blocks from `current` on. -/
  current : Chain (links s.data) 0 s.current after
  nonempty : after ≠ []
  failed_le : ∀ a ∈ after, failures s.data a ≤ 5
  failed_sorted : after.Pairwise fun a b => failures s.data b ≤ failures s.data a
  regions : ∀ r ∈ s.regions, r.addr ≠ 0 ∧ r.stop < 2 ^ 64 ∧ 0 < r.size.toNat
  large : ∀ l ∈ s.large, l.alloc ≠ 0 → Live s (before ++ after) l.alloc
  large_ne : s.large.Pairwise fun l l' => l.alloc ≠ 0 → l.alloc ≠ l'.alloc
  allocs : ∀ r ∈ s.allocs, ∃ a ∈ before ++ after, ∃ d, s.data a = some d ∧
    a.toNat + 32 ≤ r.addr.toNat ∧ r.stop ≤ d.last.toNat

variable {size n m p b : UInt64} {s s' : State} {before after blocks : List UInt64}
  {d d' : PoolData} {align : Bool} {env : Env} {rounds : Nat}

theorem Blocks.pool_mem (h : Blocks size s blocks) (hne : blocks ≠ []) : s.pool ∈ blocks := by
  obtain ⟨a, rest, rfl⟩ := List.exists_cons_of_ne_nil hne
  rw [h.chain.head_eq]
  exact List.mem_cons_self

/-- A header belongs to a block. -/
theorem Blocks.blockAt (h : Blocks size s blocks) (hd : s.data b = some d) :
    BlockAt size s.data s.regions b d := by
  obtain ⟨e, he⟩ := h.block b (h.domain b d hd)
  obtain rfl := Option.some.inj (hd.symm.trans he.data)
  exact he

/-- What a header keeps when its block does. -/
theorem map_update_eq {β : Type*} {f : PoolData → β} {data : UInt64 → Option PoolData}
    (hd : data b = some d) (hf : f d' = f d) :
    (fun a => (update data b (some d') a).map f) = fun a => (data a).map f := by
  funext a
  by_cases ha : a = b
  · subst ha
    rw [update_self, hd, Option.map_some, Option.map_some, hf]
  · rw [update_of_ne ha]

theorem links_update {data : UInt64 → Option PoolData} (hd : data b = some d)
    (hnext : d'.next = d.next) : links (update data b (some d')) = links data :=
  map_update_eq hd hnext

theorem failures_update {data : UInt64 → Option PoolData} (hd : data b = some d)
    (hfailed : d'.failed = d.failed) : failures (update data b (some d')) = failures data := by
  funext a
  have hmap := congrFun
    (map_update_eq (f := fun e => e.failed.toNat) hd (congrArg UInt32.toNat hfailed)) a
  exact congrArg (Option.getD · 0) hmap

/-- The free space of one block changes. -/
theorem Blocks.setData (h : Blocks size s blocks) (hd : s.data b = some d)
    (hnext : d'.next = d.next) (hend : d'.end_ = d.end_) (hheader : b.toNat + 32 ≤ d'.last.toNat)
    (hlast : d'.last ≤ d'.end_) : Blocks size (s.setData b d') blocks := by
  refine ⟨?_, fun a ha => ?_, fun a e he => ?_⟩
  · show Chain (links (update s.data b (some d'))) 0 s.pool blocks
    rw [links_update hd hnext]
    exact h.chain
  · by_cases hab : a = b
    · subst hab
      have hblock := h.blockAt hd
      exact ⟨d', update_self _ _ _, hblock.region, hend ▸ hblock.end_, hheader, hlast⟩
    · obtain ⟨e, he⟩ := h.block a ha
      exact ⟨e, (update_of_ne hab _ _).trans he.data, he.region, he.end_, he.header, he.last⟩
  · by_cases hab : a = b
    · subst hab
      exact h.domain a d hd
    · exact h.domain a e ((update_of_ne hab _ _).symm.trans he)

/-! ## Handing out -/

/-- A place in the free space of a block is handed out. -/
theorem WellFormed.handOut (h : WellFormed size s before after) (hd : s.data b = some d)
    (hlast : d.last ≤ m) (hend : m.toNat + n.toNat ≤ d.end_.toNat) :
    WellFormed size (s.handOut b d m n) before after := by
  have hadd : (m + n).toNat = m.toNat + n.toNat :=
    toNat_add (Nat.lt_of_le_of_lt hend d.end_.toNat_lt)
  have hle : d.last.toNat ≤ m.toNat := UInt64.le_iff_toNat_le.mp hlast
  have hheader := (h.blockAt hd).header
  have hblocks : Blocks size (s.setData b { d with last := m + n }) (before ++ after) := by
    refine h.toBlocks.setData hd rfl rfl ?_ ?_
    · show b.toNat + 32 ≤ (m + n).toNat
      omega
    · rw [UInt64.le_iff_toNat_le, hadd]
      exact hend
  have hlinks : links (s.handOut b d m n).data = links s.data := links_update hd rfl
  have hfailures : failures (s.handOut b d m n).data = failures s.data := failures_update hd rfl
  refine ⟨⟨hblocks.chain, hblocks.block, hblocks.domain⟩, h.min, h.max, ?_, h.nonempty, ?_, ?_,
    h.regions, h.large, h.large_ne, ?_⟩
  · rw [hlinks]
    exact h.current
  · rw [hfailures]
    exact h.failed_le
  · rw [hfailures]
    exact h.failed_sorted
  · intro r hr
    obtain rfl | hr := List.mem_cons.mp hr
    · refine ⟨b, h.domain b d hd, _, update_self _ _ _, ?_, Nat.le_of_eq hadd.symm⟩
      show b.toNat + 32 ≤ m.toNat
      omega
    · obtain ⟨a, ha, e, he, hfrom, hto⟩ := h.allocs r hr
      by_cases hab : a = b
      · subst hab
        obtain rfl := Option.some.inj (hd.symm.trans he)
        refine ⟨a, ha, _, update_self _ _ _, hfrom, ?_⟩
        show r.stop ≤ (m + n).toNat
        omega
      · exact ⟨a, ha, e, (update_of_ne hab _ _).trans he, hfrom, hto⟩

/-! ## Regions -/

/-- What `malloc` returns next starts where nothing in use starts. -/
theorem Fresh.ne {regions : List Range} (hfresh : Fresh regions ⟨p, n⟩) (hn : 0 < n.toNat)
    {r : Range} (hr : r ∈ regions) (hpos : 0 < r.size.toNat) : r.addr ≠ p := by
  rintro rfl
  have hdisjoint : Range.Disjoint ⟨r.addr, n⟩ r := hfresh.2.2.2 r hr
  have hstop : r.addr.toNat + n.toNat ≤ r.addr.toNat ∨ r.stop ≤ r.addr.toNat := hdisjoint
  have hsize : r.stop = r.addr.toNat + r.size.toNat := rfl
  omega

theorem WellFormed.size_pos (h : WellFormed size s before after) : 96 ≤ size.toNat :=
  UInt64.le_iff_toNat_le.mp h.min

theorem WellFormed.notMem_of_fresh (h : WellFormed size s before after)
    (hfresh : Fresh s.regions ⟨p, n⟩) (hn : 0 < n.toNat) : p ∉ before ++ after := by
  intro hmem
  obtain ⟨d, hd⟩ := h.block p hmem
  have hsize := h.size_pos
  exact hfresh.ne hn hd.region (show 0 < size.toNat by omega) rfl

/-- The blocks do not notice that more memory is allocated. -/
theorem WellFormed.malloc (h : WellFormed size s before after)
    (hfresh : Fresh s.regions ⟨p, n⟩) (hn : 0 < n.toNat) :
    WellFormed size { s with regions := ⟨p, n⟩ :: s.regions } before after := by
  refine ⟨⟨h.chain, fun a ha => ?_, h.domain⟩, h.min, h.max, h.current, h.nonempty, h.failed_le,
    h.failed_sorted, fun r hr => ?_, fun l hl hne => ?_, h.large_ne, h.allocs⟩
  · obtain ⟨d, hd⟩ := h.block a ha
    exact ⟨d, hd.data, List.mem_cons_of_mem _ hd.region, hd.end_, hd.header, hd.last⟩
  · obtain rfl | hr := List.mem_cons.mp hr
    · exact ⟨hfresh.1, hfresh.2.2.1, hn⟩
    · exact h.regions r hr
  · obtain ⟨hblock, k, hk⟩ := h.large l hl hne
    exact ⟨hblock, k, List.mem_cons_of_mem _ hk⟩

theorem release_eq_some {large large' : List Large} (h : State.release p large = some large') :
    ∃ l₁ node l₂, large = l₁ ++ ⟨node, p⟩ :: l₂ ∧ large' = l₁ ++ ⟨node, 0⟩ :: l₂ := by
  induction large generalizing large' with
  | nil => cases h
  | cons l rest ih =>
    simp only [State.release] at h
    split at h
    · rename_i hp
      cases h
      exact ⟨[], l.node, rest, by rw [hp]; rfl, rfl⟩
    · obtain ⟨rest', hrest, rfl⟩ := Option.map_eq_some_iff.mp h
      obtain ⟨l₁, node, l₂, rfl, rfl⟩ := ih hrest
      exact ⟨l :: l₁, node, l₂, rfl, rfl⟩

theorem reuse_eq_some {k : Nat} {large large' : List Large}
    (h : State.reuse p k large = some large') :
    ∃ l₁ node l₂, large = l₁ ++ ⟨node, 0⟩ :: l₂ ∧ large' = l₁ ++ ⟨node, p⟩ :: l₂ := by
  induction large generalizing large' k with
  | nil => cases h
  | cons l rest ih =>
    simp only [State.reuse] at h
    split at h
    · rename_i hl
      cases h
      exact ⟨[], l.node, rest, by rw [← hl]; rfl, rfl⟩
    · split at h
      · cases h
      · obtain ⟨rest', hrest, rfl⟩ := Option.map_eq_some_iff.mp h
        obtain ⟨l₁, node, l₂, rfl, rfl⟩ := ih hrest
        exact ⟨l :: l₁, node, l₂, rfl, rfl⟩

/-- Other nodes for large regions. -/
theorem WellFormed.setLarge {large : List Large} (h : WellFormed size s before after)
    (hlive : ∀ l ∈ large, l.alloc ≠ 0 → Live s (before ++ after) l.alloc)
    (hne : large.Pairwise fun l l' => l.alloc ≠ 0 → l.alloc ≠ l'.alloc) :
    WellFormed size { s with large } before after :=
  ⟨⟨h.chain, h.block, h.domain⟩, h.min, h.max, h.current, h.nonempty, h.failed_le,
    h.failed_sorted, h.regions, hlive, hne, h.allocs⟩

/-- A node gives up its region. -/
theorem WellFormed.releaseNode {l₁ l₂ : List Large} {node : UInt64}
    (h : WellFormed size s before after) (hlarge : s.large = l₁ ++ ⟨node, p⟩ :: l₂) :
    WellFormed size { s with large := l₁ ++ ⟨node, 0⟩ :: l₂ } before after ∧
      ∀ l ∈ l₁ ++ ⟨node, 0⟩ :: l₂, l.alloc ≠ 0 → p ≠ 0 → l.alloc ≠ p := by
  have hne := h.large_ne
  rw [hlarge, List.pairwise_append, List.pairwise_cons] at hne
  obtain ⟨hne₁, ⟨hp₂, hne₂⟩, hcross⟩ := hne
  have hmem : ∀ l ∈ l₁ ++ ⟨node, 0⟩ :: l₂, l.alloc ≠ 0 → l ∈ s.large ∧ (p ≠ 0 → l.alloc ≠ p) := by
    intro l hl hlne
    rw [hlarge]
    obtain hl | hl := List.mem_append.mp hl
    · exact ⟨List.mem_append_left _ hl, fun _ => hcross l hl _ List.mem_cons_self hlne⟩
    · obtain rfl | hl := List.mem_cons.mp hl
      · exact absurd rfl hlne
      · refine ⟨List.mem_append_right _ (List.mem_cons_of_mem _ hl), fun hp => ?_⟩
        exact (hp₂ l hl hp).symm
  have hlarge_ne : (l₁ ++ ⟨node, 0⟩ :: l₂).Pairwise fun l l' : Large =>
      l.alloc ≠ 0 → l.alloc ≠ l'.alloc := by
    refine List.pairwise_append.mpr ⟨hne₁, List.pairwise_cons.mpr ⟨?_, hne₂⟩, ?_⟩
    · exact fun l _ hzero => absurd rfl hzero
    · intro l hl l' hl' hlne
      obtain rfl | hl' := List.mem_cons.mp hl'
      · exact hlne
      · exact hcross l hl l' (List.mem_cons_of_mem _ hl') hlne
  refine ⟨h.setLarge (fun l hl hlne => h.large l (hmem l hl hlne).1 hlne) hlarge_ne, ?_⟩
  exact fun l hl hlne => (hmem l hl hlne).2

/-- A node that has none takes a region of its own. -/
theorem WellFormed.reuseNode {l₁ l₂ : List Large} {node : UInt64}
    (h : WellFormed size s before after) (hlarge : s.large = l₁ ++ ⟨node, 0⟩ :: l₂) (hp : p ≠ 0)
    (hlive : Live s (before ++ after) p) (hother : ∀ l ∈ s.large, l.alloc ≠ 0 → l.alloc ≠ p) :
    WellFormed size { s with large := l₁ ++ ⟨node, p⟩ :: l₂ } before after := by
  refine h.setLarge (fun l hl hne => ?_) ?_
  · obtain hl | hl := List.mem_append.mp hl
    · refine h.large l ?_ hne
      exact hlarge ▸ List.mem_append_left _ hl
    · obtain rfl | hl := List.mem_cons.mp hl
      · exact hlive
      · refine h.large l ?_ hne
        exact hlarge ▸ List.mem_append_right _ (List.mem_cons_of_mem _ hl)
  · have hne := h.large_ne
    rw [hlarge] at hne hother
    obtain ⟨hne₁, hne₂, hcross⟩ := List.pairwise_append.mp hne
    refine List.pairwise_append.mpr ⟨hne₁, List.pairwise_cons.mpr ⟨?_, hne₂.of_cons⟩, ?_⟩
    · intro l hl _ heq
      have hlne : l.alloc ≠ 0 := heq ▸ hp
      exact hother l (List.mem_append_right _ (List.mem_cons_of_mem _ hl)) hlne heq.symm
    · intro l hl l' hl' hlne
      obtain rfl | hl' := List.mem_cons.mp hl'
      · exact hother l (List.mem_append_left _ hl) hlne
      · exact hcross l hl l' (List.mem_cons_of_mem _ hl') hlne

/-- A new node for a region. -/
theorem WellFormed.addNode {node : UInt64} (h : WellFormed size s before after) (hp : p ≠ 0)
    (hlive : Live s (before ++ after) p) (hother : ∀ l ∈ s.large, l.alloc ≠ 0 → l.alloc ≠ p) :
    WellFormed size { s with large := ⟨node, p⟩ :: s.large } before after := by
  refine h.setLarge (fun l hl hne => ?_) (List.pairwise_cons.mpr ⟨?_, h.large_ne⟩)
  · obtain rfl | hl := List.mem_cons.mp hl
    · exact hlive
    · exact h.large l hl hne
  · intro l hl _ heq
    have hlne : l.alloc ≠ 0 := heq ▸ hp
    exact hother l hl hlne heq.symm

/-- Memory that is neither a block nor has a node is freed. -/
theorem WellFormed.free (h : WellFormed size s before after) (hblock : p ∉ before ++ after)
    (hlarge : ∀ l ∈ s.large, l.alloc ≠ 0 → l.alloc ≠ p) :
    WellFormed size { s with regions := s.regions.filter (·.addr ≠ p) } before after := by
  have hkept : ∀ a n, a ≠ p → ⟨a, n⟩ ∈ s.regions →
      (⟨a, n⟩ : Range) ∈ s.regions.filter (·.addr ≠ p) := by
    intro a n ha hmem
    exact List.mem_filter.mpr ⟨hmem, by simpa using ha⟩
  refine ⟨⟨h.chain, fun a ha => ?_, h.domain⟩, h.min, h.max, h.current, h.nonempty, h.failed_le,
    h.failed_sorted, fun r hr => h.regions r (List.mem_filter.mp hr).1, fun l hl hlne => ?_,
    h.large_ne, h.allocs⟩
  · obtain ⟨d, hd⟩ := h.block a ha
    refine ⟨d, hd.data, hkept a size ?_ hd.region, hd.end_, hd.header, hd.last⟩
    rintro rfl
    exact hblock ha
  · obtain ⟨hlive, n, hn⟩ := h.large l hl hlne
    exact ⟨hlive, n, hkept _ n (hlarge l hl hlne) hn⟩

/-- `ngx_pfree` frees a large region or does nothing. -/
theorem WellFormed.ngx_pfree (h : WellFormed size s before after)
    (hs : s.ngx_pfree p = some s') : WellFormed size s' before after := by
  simp only [State.ngx_pfree, State.free] at hs
  split at hs
  · cases hs
    exact h
  · rename_i large' hrelease
    obtain ⟨l₁, node, l₂, hlarge, rfl⟩ := release_eq_some hrelease
    obtain ⟨hreleased, hne⟩ := h.releaseNode hlarge
    split at hs
    · cases hs
      exact hreleased
    · rename_i hp
      split at hs
      · cases hs
        have hlive : Live s (before ++ after) p := by
          refine h.large ⟨node, p⟩ ?_ hp
          rw [hlarge]
          exact List.mem_append_right _ List.mem_cons_self
        exact hreleased.free hlive.1 fun l hl hlne => hne l hl hlne hp
      · cases hs

/-! ## Counting failures -/

/-- The headers when the blocks of `l` have failed once more. -/
def counted (data : UInt64 → Option PoolData) (l : List UInt64) (a : UInt64) : Option PoolData :=
  if a ∈ l then (data a).map fun d => { d with failed := d.failed + 1 } else data a

theorem links_eq_some {data : UInt64 → Option PoolData} {a q : UInt64} :
    links data a = some q ↔ ∃ d, data a = some d ∧ d.next = q := Option.map_eq_some_iff

/-- The first block of a chain, and the chain behind it. -/
theorem chain_cons {data : UInt64 → Option PoolData} {a : UInt64} {l : List UInt64}
    (h : Chain (links data) 0 p (a :: l)) :
    p = a ∧ ∃ d, data p = some d ∧ Chain (links data) 0 d.next l := by
  obtain ⟨rfl, -, q, hq, htail⟩ := Chain.cons_iff.mp h
  obtain ⟨d, hd, rfl⟩ := links_eq_some.mp hq
  exact ⟨rfl, d, hd, htail⟩

theorem links_counted (data : UInt64 → Option PoolData) (l : List UInt64) :
    links (counted data l) = links data := by
  funext a
  simp only [links, counted]
  split
  · rw [Option.map_map]
    rfl
  · rfl

theorem failures_of_data {data : UInt64 → Option PoolData} {a : UInt64} (hd : data a = some d) :
    failures data a = d.failed.toNat := by
  rw [failures, hd]
  rfl

theorem failures_update_of_ne {data : UInt64 → Option PoolData} {a : UInt64} (hab : a ≠ b)
    (e : Option PoolData) : failures (update data b e) a = failures data a := by
  rw [failures, failures, update_of_ne hab]

variable {l : List UInt64} {q q' : UInt64}

theorem sorted_congr {data data' : UInt64 → Option PoolData}
    (h : l.Pairwise fun a b => failures data b ≤ failures data a)
    (hsame : ∀ a ∈ l, failures data' a = failures data a) :
    l.Pairwise fun a b => failures data' b ≤ failures data' a := by
  refine h.imp_of_mem fun ha hb hle => ?_
  rw [hsame _ ha, hsame _ hb]
  exact hle

/-- A block that is not the last one: it is counted, and the loop goes on behind it. -/
theorem countFailures_cons {a : UInt64} (hchain : Chain (links s.data) 0 p (a :: l ++ [q])) :
    p = a ∧ ∃ d, s.data a = some d ∧
      Chain (links (s.countFailure a d).data) 0 d.next (l ++ [q]) ∧
      (a ∉ l ++ [q]) ∧ s.countFailures (rounds + 1) p =
        (s.countFailure a d).countFailures rounds d.next := by
  have hnodup := hchain.nodup
  obtain ⟨rfl, d, hd, htail⟩ := chain_cons hchain
  have hne : d.next ≠ 0 := htail.ne_null (by simp)
  have hlinks : links (s.countFailure p d).data = links s.data := links_update hd rfl
  refine ⟨rfl, d, hd, ?_, (List.nodup_cons.mp hnodup).1, ?_⟩
  · rw [hlinks]
    exact htail
  · simp only [State.countFailures, hd, hne, if_false]

theorem countFailures_last (hchain : Chain (links s.data) 0 p [q]) :
    s.countFailures (rounds + 1) p = some (s, q) := by
  obtain ⟨rfl, d, hd, htail⟩ := chain_cons hchain
  have hnext := Chain.nil_iff.mp htail
  simp only [State.countFailures, hd, hnext, if_true]

/-- The loop ends at the last block. -/
theorem countFailures_total (hchain : Chain (links s.data) 0 p (l ++ [q]))
    (hrounds : l.length < rounds) : ∃ r, s.countFailures rounds p = some r := by
  induction l generalizing s p rounds with
  | nil =>
    obtain ⟨k, rfl⟩ := Nat.exists_eq_succ_of_ne_zero (Nat.ne_zero_of_lt hrounds)
    exact ⟨_, countFailures_last hchain⟩
  | cons a l ih =>
    obtain ⟨k, rfl⟩ : ∃ k, rounds = k + 1 := ⟨rounds - 1, by omega⟩
    obtain ⟨-, d, -, htail, -, hstep⟩ := countFailures_cons hchain
    rw [hstep]
    exact ih htail (Nat.lt_of_succ_lt_succ hrounds)

/-- The loop adds no header. -/
theorem countFailures_none {a : UInt64} (h : s.countFailures rounds p = some (s', q))
    (ha : s.data a = none) : s'.data a = none := by
  induction rounds generalizing s p with
  | zero => cases h
  | succ rounds ih =>
    simp only [State.countFailures] at h
    split at h
    · cases h
    · rename_i d hd
      split at h
      · cases h
        exact ha
      · refine ih h ((update_of_ne ?_ _ _).trans ha)
        rintro rfl
        rw [ha] at hd
        cases hd

/-- The blocks before the last one are counted. -/
theorem countFailures_data (hchain : Chain (links s.data) 0 p (l ++ [q]))
    (h : s.countFailures rounds p = some (s', q')) : q' = q ∧ s'.data = counted s.data l := by
  induction l generalizing s p rounds with
  | nil =>
    cases rounds with
    | zero => cases h
    | succ rounds =>
      rw [countFailures_last hchain] at h
      cases h
      exact ⟨rfl, by funext a; simp [counted]⟩
  | cons a l ih =>
    cases rounds with
    | zero => cases h
    | succ rounds =>
      obtain ⟨rfl, d, hd, htail, hnotMem, hstep⟩ := countFailures_cons hchain
      rw [hstep] at h
      obtain ⟨hq, hdata⟩ := ih htail h
      refine ⟨hq, hdata.trans (funext fun b => ?_)⟩
      have hp : p ∉ l := fun hmem => hnotMem (List.mem_append_left _ hmem)
      by_cases hb : b = p
      · subst hb
        simp [counted, hp, State.countFailure, hd]
      · simp [counted, hb, State.countFailure]

/-- Where no block is over the threshold, `current` stays. -/
theorem countFailures_current_of_le (hchain : Chain (links s.data) 0 p (l ++ [q]))
    (hle : ∀ a ∈ l, failures s.data a ≤ 4) (h : s.countFailures rounds p = some (s', q')) :
    s'.current = s.current := by
  induction l generalizing s p rounds with
  | nil =>
    cases rounds with
    | zero => cases h
    | succ rounds =>
      rw [countFailures_last hchain] at h
      cases h
      rfl
  | cons a l ih =>
    cases rounds with
    | zero => cases h
    | succ rounds =>
      obtain ⟨rfl, d, hd, htail, hnotMem, hstep⟩ := countFailures_cons hchain
      rw [hstep] at h
      have hfailed := hle p List.mem_cons_self
      rw [failures_of_data hd] at hfailed
      have hrest : ∀ b ∈ l, failures (s.countFailure p d).data b ≤ 4 := by
        intro b hb
        have hbp : b ≠ p := fun heq => hnotMem (heq ▸ List.mem_append_left _ hb)
        have hsame : failures (s.countFailure p d).data b = failures s.data b :=
          failures_update_of_ne hbp _
        rw [hsame]
        exact hle b (List.mem_cons_of_mem _ hb)
      refine (ih htail hrest h).trans (if_neg fun hgt => ?_)
      have hlt : 4 < d.failed.toNat := UInt32.lt_iff_toNat_lt.mp hgt
      omega

/-- `current` moves forward to the first block that is not over the threshold. -/
theorem countFailures_current (hchain : Chain (links s.data) 0 p (l ++ [q]))
    (hcurrent : s.current = p)
    (hsorted : l.Pairwise fun a b => failures s.data b ≤ failures s.data a)
    (h : s.countFailures rounds p = some (s', q')) :
    ∃ passed rest, l = passed ++ rest ∧ (rest ++ [q]).head? = some s'.current ∧
      (∀ a ∈ passed, 4 < failures s.data a) ∧ ∀ a ∈ rest, failures s.data a ≤ 4 := by
  induction l generalizing s p rounds with
  | nil =>
    cases rounds with
    | zero => cases h
    | succ rounds =>
      rw [countFailures_last hchain] at h
      cases h
      rw [← hchain.head_eq]
      exact ⟨[], [], rfl, by rw [hcurrent]; rfl, by simp, by simp⟩
  | cons a l ih =>
    cases rounds with
    | zero => cases h
    | succ rounds =>
      have hsteps := h
      obtain ⟨rfl, d, hd, htail, hnotMem, hstep⟩ := countFailures_cons hchain
      rw [hstep] at h
      obtain ⟨hhead, hsorted⟩ := List.pairwise_cons.mp hsorted
      have hsame : ∀ b ∈ l, failures (s.countFailure p d).data b = failures s.data b := by
        intro b hb
        refine failures_update_of_ne ?_ _
        rintro rfl
        exact hnotMem (List.mem_append_left _ hb)
      by_cases hgt : d.failed > 4
      · -- this block is passed, and those behind it are up to the induction
        obtain ⟨passed, rest, hsplit, hcur, hover, hunder⟩ :=
          ih htail (if_pos hgt) (sorted_congr hsorted hsame) h
        subst hsplit
        refine ⟨p :: passed, rest, rfl, hcur, fun b hb => ?_, fun b hb => ?_⟩
        · obtain rfl | hb := List.mem_cons.mp hb
          · rw [failures_of_data hd]
            exact UInt32.lt_iff_toNat_lt.mp hgt
          · rw [← hsame b (List.mem_append_left _ hb)]
            exact hover b hb
        · rw [← hsame b (List.mem_append_right _ hb)]
          exact hunder b hb
      · -- the blocks behind have not failed more often, so none of them is passed
        have hle : d.failed.toNat ≤ 4 := by
          rw [gt_iff_lt, UInt32.lt_iff_toNat_lt] at hgt
          exact Nat.le_of_not_lt hgt
        have hall : ∀ b ∈ p :: l, failures s.data b ≤ 4 := by
          rw [← failures_of_data hd] at hle
          intro b hb
          obtain rfl | hb := List.mem_cons.mp hb
          · exact hle
          · exact Nat.le_trans (hhead b hb) hle
        refine ⟨[], p :: l, rfl, ?_, by simp, hall⟩
        rw [countFailures_current_of_le hchain hall hsteps, hcurrent]
        rfl

/-! ## Growing -/

/-- The headers when a block is linked behind the blocks `l` and `q`. -/
structure Growth (data data' : UInt64 → Option PoolData) (l : List UInt64) (q m : UInt64)
    (new : PoolData) : Prop where
  last : ∃ d, data q = some d ∧ data' q = some { d with next := m }
  block : data' m = some new
  other : ∀ a, a ≠ q → a ≠ m → data' a = counted data l a

/-- The blocks from `current` on that are over the threshold are passed. -/
def Advances (s : State) (current : UInt64) (l : List UInt64) (q : UInt64)
    (passed rest : List UInt64) : Prop :=
  l = passed ++ rest ∧ (rest ++ [q]).head? = some current ∧
    (∀ a ∈ passed, 4 < failures s.data a) ∧ ∀ a ∈ rest, failures s.data a ≤ 4

/-- A link and the free space of an old block stay as they are. -/
theorem Growth.old {data data' : UInt64 → Option PoolData} {new : PoolData} {a : UInt64}
    (h : Growth data data' l q m new) (ham : a ≠ m) (hd : data a = some d) :
    ∃ d', data' a = some d' ∧ d'.last = d.last ∧ d'.end_ = d.end_ ∧
      (a ≠ q → d'.next = d.next) ∧ (d'.failed = d.failed ∨ a ∈ l ∧ d'.failed = d.failed + 1) := by
  by_cases haq : a = q
  · subst haq
    obtain ⟨e, he, he'⟩ := h.last
    obtain rfl := Option.some.inj (hd.symm.trans he)
    exact ⟨_, he', rfl, rfl, fun hne => absurd rfl hne, Or.inl rfl⟩
  · have hother := h.other a haq ham
    simp only [counted] at hother
    split at hother
    · rename_i hl
      rw [hd] at hother
      exact ⟨_, hother, rfl, rfl, fun _ => rfl, Or.inr ⟨hl, rfl⟩⟩
    · exact ⟨d, hother.trans hd, rfl, rfl, fun _ => rfl, Or.inl rfl⟩

/-- The new block is linked behind the last one. -/
theorem Growth.chain {data data' : UInt64 → Option PoolData} {new : PoolData} {l' : List UInt64}
    (h : Growth data data' l q m new) (hold : Chain (links data) 0 p (l' ++ [q])) (hm : m ≠ 0)
    (hmem : m ∉ l' ++ [q]) (hnext : new.next = 0) :
    Chain (links data') 0 p (l' ++ [q, m]) := by
  obtain ⟨d, hd, hd'⟩ := h.last
  refine hold.append hm (fun a ha => ?_) (links_eq_some.mpr ⟨_, hd', rfl⟩)
    (links_eq_some.mpr ⟨new, h.block, hnext⟩)
  have haq : a ≠ q := by
    rintro rfl
    exact hold.last_notMem ha
  have ham : a ≠ m := by
    rintro rfl
    exact hmem (List.mem_append_left _ ha)
  show links data' a = links data a
  rw [← links_counted data l, links, links, h.other a haq ham]

theorem Growth.failures_counted {data data' : UInt64 → Option PoolData} {new : PoolData}
    {a : UInt64} (h : Growth data data' l q m new) (haq : a ≠ q) (ham : a ≠ m) (hl : a ∈ l)
    (hd : data a = some d) (hle : failures data a ≤ 4) :
    failures data' a = failures data a + 1 := by
  rw [failures_of_data hd] at hle ⊢
  have hother := h.other a haq ham
  rw [counted, if_pos hl, hd] at hother
  rw [failures_of_data hother]
  show (d.failed + 1).toNat = d.failed.toNat + 1
  rw [UInt32.toNat_add]
  exact Nat.mod_eq_of_lt (Nat.lt_of_le_of_lt (Nat.succ_le_succ hle) (by decide))

theorem Growth.failures_last {data data' : UInt64 → Option PoolData} {new : PoolData}
    (h : Growth data data' l q m new) : failures data' q = failures data q := by
  obtain ⟨d, hd, hd'⟩ := h.last
  rw [failures_of_data hd, failures_of_data hd']

/-- A header elsewhere does not change a chain. -/
theorem chain_update {data : UInt64 → Option PoolData} (h : Chain (links data) 0 p l)
    (hb : b ∉ l) (e : Option PoolData) : Chain (links (update data b e)) 0 p l := by
  refine h.congr fun a ha => ?_
  have hab : a ≠ b := by
    rintro rfl
    exact hb ha
  rw [links, links, update_of_ne hab]

/-- Every block gets the size of the first one. -/
theorem WellFormed.psize (h : WellFormed size s before after) (hd : s.data s.pool = some d) :
    d.end_ - s.pool = size := by
  have hend : d.end_.toNat = s.pool.toNat + size.toNat := (h.blockAt hd).end_
  have hle : s.pool ≤ d.end_ := by
    rw [UInt64.le_iff_toNat_le, hend]
    omega
  apply UInt64.toNat_inj.mp
  rw [UInt64.toNat_sub_of_le _ _ hle, hend]
  omega

theorem WellFormed.exists_last (h : WellFormed size s before after) : ∃ l q, after = l ++ [q] :=
  ⟨after.dropLast, after.getLast h.nonempty, (List.dropLast_append_getLast h.nonempty).symm⟩

/-- The first place in a new block is right behind its header. -/
theorem toNat_first_place {regions : List Range} (hfresh : Fresh regions ⟨p, size⟩)
    (hsize : 96 ≤ size.toNat) :
    (ngx_align_ptr (p + sizeof_ngx_pool_data_t) NGX_ALIGNMENT).toNat = p.toNat + 32 := by
  have hstop : p.toNat + size.toNat < 2 ^ 64 := hfresh.2.2.1
  have haligned : p.toNat % 16 = 0 := hfresh.2.1
  have hadd := toNat_add_pool_data_t (p := p) (by omega)
  rw [toNat_ngx_align_ptr (by omega), hadd]
  refine Nat.le_antisymm (roundUp_le (by decide) (Nat.le_refl _) ?_) (le_roundUp (by decide) _)
  omega

/-- What `ngx_palloc_block` does when `newpool` is the block that `malloc` returns. -/
theorem palloc_block_growth (h : WellFormed size s before after)
    (hn : n.toNat + 64 ≤ size.toNat)
    (hs : s.ngx_palloc_block n env = some (s', m)) (hblock : env.block ≠ 0)
    (hp : env.p = env.block) :
    Fresh s.regions ⟨env.block, size⟩ ∧ m.toNat = env.block.toNat + 32 ∧
    ∃ l q passed rest new, after = l ++ [q] ∧ Growth s.data s'.data l q env.block new ∧
      new.last.toNat = m.toNat + n.toNat ∧ new.end_.toNat = env.block.toNat + size.toNat ∧
      new.next = 0 ∧ new.failed = 0 ∧ Advances s s'.current l q passed rest ∧
      s'.pool = s.pool ∧ s'.max = s.max ∧ s'.large = s.large ∧
      s'.regions = ⟨env.block, size⟩ :: s.regions ∧ s'.allocs = ⟨m, n⟩ :: s.allocs := by
  obtain ⟨hzero, -⟩ | ⟨first, s₂, q', d, hfirst, -, hfresh, -, rfl, hcount, hd, rfl⟩ :=
    State.palloc_block_cases hs
  · exact absurd hzero hblock
  have hpsize := h.psize hfirst
  rw [hpsize] at hfresh hcount
  rw [hp] at hcount ⊢
  have hsize := h.size_pos
  have hstop : env.block.toNat + size.toNat < 2 ^ 64 := hfresh.2.2.1
  have hend : (env.block + size).toNat = env.block.toNat + size.toNat := toNat_add hstop
  have hplace := toNat_first_place hfresh hsize
  generalize ngx_align_ptr (env.block + sizeof_ngx_pool_data_t) NGX_ALIGNMENT = m at *
  have hlast : (m + n).toNat = m.toNat + n.toNat := by
    apply toNat_add
    omega
  -- the header of the new block does not change the chain of the others
  have hnotMem : env.block ∉ before ++ after :=
    h.notMem_of_fresh hfresh (show 0 < size.toNat by omega)
  obtain ⟨l, q, rfl⟩ := h.exists_last
  generalize hnew : (⟨m + n, env.block + size, 0, 0⟩ : PoolData) = new at hcount
  have hne : ∀ a ∈ l ++ [q], a ≠ env.block := by
    rintro a ha rfl
    exact hnotMem (List.mem_append_right _ ha)
  have hchain : Chain (links (update s.data env.block (some new))) 0 s.current (l ++ [q]) :=
    chain_update h.current (fun hmem => hne _ hmem rfl) _
  obtain ⟨hpool, hmax, hlarge, -, hregions, hallocs, -⟩ := State.countFailures_frame hcount
  have hdata : s₂.data = counted (update s.data env.block (some new)) l :=
    (countFailures_data hchain hcount).2
  obtain ⟨rfl, -⟩ := countFailures_data hchain hcount
  have hfailures : ∀ a ∈ l, failures (update s.data env.block (some new)) a =
      failures s.data a := fun a ha => failures_update_of_ne (hne a (List.mem_append_left _ ha)) _
  have hsorted := sorted_congr (List.pairwise_append.mp h.failed_sorted).1 hfailures
  obtain ⟨passed, rest, hsplit, hhead, hover, hunder⟩ :=
    countFailures_current hchain rfl hsorted hcount
  have hq : q' ∉ l := hchain.last_notMem
  have hother : ∀ a, a ≠ env.block → s₂.data a = counted s.data l a := by
    intro a ha
    rw [hdata, counted, counted, update_of_ne ha]
  have hqm : q' ≠ env.block := hne q' (List.mem_append_right _ (List.mem_singleton_self q'))
  refine ⟨hfresh, hplace, l, q', passed, rest, new, rfl, ⟨⟨d, ?_, update_self _ _ _⟩, ?_, ?_⟩, ?_,
    ?_, ?_, ?_, ⟨hsplit, hhead, ?_, ?_⟩, hpool, hmax, hlarge, hregions, congrArg (_ :: ·) hallocs⟩
  · rw [← hd, hother q' hqm, counted, if_neg hq]
  · have hl : env.block ∉ l := fun hmem => hne _ (List.mem_append_left _ hmem) rfl
    refine (update_of_ne hqm.symm _ _).trans ?_
    rw [hdata, counted, if_neg hl]
    exact update_self _ _ _
  · intro a haq ham
    exact (update_of_ne haq _ _).trans (hother a ham)
  · rw [← hnew]
    exact hlast
  · rw [← hnew]
    exact hend
  · rw [← hnew]
  · rw [← hnew]
  · intro a ha
    rw [← hfailures a (hsplit ▸ List.mem_append_left _ ha)]
    exact hover a ha
  · intro a ha
    rw [← hfailures a (hsplit ▸ List.mem_append_right _ ha)]
    exact hunder a ha

variable {new : PoolData} {old rest : List UInt64}

/-- The blocks of the grown pool. -/
theorem Growth.blocks_append (h : Growth s.data s'.data l q b new)
    (hold : Blocks size s (old ++ [q])) (hfresh : b ≠ 0 ∧ b ∉ old ++ [q])
    (hnext : new.next = 0) (hpool : s'.pool = s.pool)
    (hregions : s'.regions = ⟨b, size⟩ :: s.regions)
    (hnew : BlockAt size s'.data s'.regions b new) : Blocks size s' (old ++ [q, b]) := by
  obtain ⟨hzero, hb⟩ := hfresh
  have hmem : ∀ a, a ∈ old ++ [q, b] ↔ a ∈ old ++ [q] ∨ a = b := by
    intro a
    simp [or_assoc]
  refine ⟨?_, fun a ha => ?_, fun a d hd => (hmem a).mpr ?_⟩
  · rw [hpool]
    exact h.chain hold.chain hzero hb hnext
  · obtain hin | rfl := (hmem a).mp ha
    · obtain ⟨d, hd⟩ := hold.block a hin
      have hab : a ≠ b := by
        rintro rfl
        exact hb hin
      obtain ⟨d', hd', hlast, hend, -⟩ := h.old hab hd.data
      refine ⟨d', hd', ?_, hend ▸ hd.end_, hlast ▸ hd.header, hlast ▸ hend ▸ hd.last⟩
      rw [hregions]
      exact List.mem_cons_of_mem _ hd.region
    · exact ⟨new, hnew⟩
  · refine or_iff_not_imp_right.mpr fun hab => ?_
    by_cases haq : a = q
    · simp [haq]
    · rw [h.other a haq hab] at hd
      simp only [counted] at hd
      split at hd
      · obtain ⟨e, he, -⟩ := Option.map_eq_some_iff.mp hd
        exact hold.domain a e he
      · exact hold.domain a d hd

/-- The counters from `current` on stay sorted and below the threshold. -/
theorem Growth.failed {data data' : UInt64 → Option PoolData} (h : Growth data data' l q b new)
    (hzero : new.failed = 0) (hcounted : ∀ a ∈ rest, failures data' a = failures data a + 1)
    (hunder : ∀ a ∈ rest, failures data a ≤ 4) (hq : failures data q ≤ 5)
    (hsorted : (rest ++ [q]).Pairwise fun a b => failures data b ≤ failures data a) :
    (∀ a ∈ rest ++ [q, b], failures data' a ≤ 5) ∧
      (rest ++ [q, b]).Pairwise fun a b => failures data' b ≤ failures data' a := by
  have hnew : failures data' b = 0 := by
    rw [failures_of_data h.block, hzero]
    rfl
  obtain ⟨hrest, -, hcross⟩ := List.pairwise_append.mp hsorted
  constructor
  · intro a ha
    rw [List.append_cons, List.mem_append, List.mem_append] at ha
    obtain (ha | ha) | ha := ha
    · rw [hcounted a ha]
      exact Nat.succ_le_succ (hunder a ha)
    · obtain rfl := List.mem_singleton.mp ha
      rw [h.failures_last]
      exact hq
    · obtain rfl := List.mem_singleton.mp ha
      rw [hnew]
      exact Nat.zero_le 5
  · refine List.pairwise_append.mpr ⟨hrest.imp_of_mem fun hx hy hle => ?_, ?_, fun x hx y hy => ?_⟩
    · rw [hcounted _ hx, hcounted _ hy]
      exact Nat.succ_le_succ hle
    · simp [hnew]
    · rw [hcounted x hx]
      obtain rfl | hy := List.mem_cons.mp hy
      · rw [h.failures_last]
        exact Nat.le_succ_of_le (hcross x hx y (List.mem_singleton_self y))
      · obtain rfl := List.mem_singleton.mp hy
        rw [hnew]
        exact Nat.zero_le _

/-- The grown pool is well formed. -/
theorem WellFormed.palloc_block (h : WellFormed size s before after)
    (hn : n.toNat + 64 ≤ size.toNat) (hs : s.ngx_palloc_block n env = some (s', m))
    (hp : env.block = 0 ∨ env.p = env.block) :
    ∃ before' after', WellFormed size s' before' after' ∧ s'.max = s.max ∧ s'.large = s.large ∧
      ∀ a, Live s (before ++ after) a → Live s' (before' ++ after') a := by
  by_cases hblock : env.block = 0
  · -- `malloc` has failed
    obtain ⟨-, rfl, -⟩ | ⟨_, _, _, _, -, hne, -⟩ := State.palloc_block_cases hs
    · exact ⟨before, after, h, rfl, rfl, fun _ ha => ha⟩
    · exact absurd hblock hne
  obtain ⟨hfresh, hplace, l, q, passed, rest, new, rfl, hgrowth, hlast, hend, hnext, hfailed,
    ⟨hsplit, hhead, -, hunder⟩, hpool, hmax, hlarge, hregions, hallocs⟩ :=
    palloc_block_growth h hn hs hblock (hp.resolve_left hblock)
  generalize env.block = b at *
  subst hsplit
  have hsize := h.size_pos
  have hpos : 0 < size.toNat := Nat.zero_lt_of_lt hsize
  have hb : b ∉ before ++ (passed ++ rest ++ [q]) := h.notMem_of_fresh hfresh hpos
  have hne : ∀ a ∈ before ++ (passed ++ rest ++ [q]), a ≠ b := by
    rintro a ha rfl
    exact hb ha
  -- the new block `b` hangs behind the last one, `q`
  have hblocks : Blocks size s' (before ++ passed ++ (rest ++ [q, b])) := by
    have hold := h.toBlocks
    rw [← List.append_assoc] at hold hb
    have hnew : BlockAt size s'.data s'.regions b new := by
      refine ⟨hgrowth.block, hregions ▸ List.mem_cons_self, hend, by omega, ?_⟩
      rw [UInt64.le_iff_toNat_le]
      omega
    have hgrown := hgrowth.blocks_append hold ⟨hfresh.1, hb⟩ hnext hpool hregions hnew
    simpa only [List.append_assoc] using hgrown
  have hmem : ∀ a, a ∈ before ++ passed ++ (rest ++ [q, b]) ↔
      a ∈ before ++ (passed ++ rest ++ [q]) ∨ a = b := by
    intro a
    simp [or_assoc]
  have hlive : ∀ a, Live s (before ++ (passed ++ rest ++ [q])) a →
      Live s' (before ++ passed ++ (rest ++ [q, b])) a := by
    rintro a ⟨ha, k, hk⟩
    refine ⟨fun hin => ?_, k, ?_⟩
    · obtain hin | rfl := (hmem a).mp hin
      · exact ha hin
      · exact hfresh.ne hpos hk (h.regions _ hk).2.2 rfl
    · rw [hregions]
      exact List.mem_cons_of_mem _ hk
  -- only the blocks from `current` on have failed once more
  have hcounted : ∀ a ∈ rest, failures s'.data a = failures s.data a + 1 := by
    intro a ha
    have hl : a ∈ passed ++ rest := List.mem_append_right _ ha
    have hin : a ∈ before ++ (passed ++ rest ++ [q]) :=
      List.mem_append_right _ (List.mem_append_left _ hl)
    have haq : a ≠ q := by
      rintro rfl
      exact h.current.last_notMem hl
    obtain ⟨d, hd⟩ := h.block a hin
    exact hgrowth.failures_counted haq (hne a hin) hl hd.data (hunder a ha)
  have hsorted : (rest ++ [q]).Pairwise fun a b => failures s.data b ≤ failures s.data a := by
    have hall := h.failed_sorted
    rw [List.append_assoc] at hall
    exact (List.pairwise_append.mp hall).2.1
  obtain ⟨hfailed_le, hfailed_sorted⟩ := hgrowth.failed hfailed hcounted hunder
    (h.failed_le q (List.mem_append_right _ (List.mem_singleton_self q))) hsorted
  refine ⟨before ++ passed, rest ++ [q, b], ⟨hblocks, h.min, hmax ▸ h.max, ?_, by simp, hfailed_le,
    hfailed_sorted, fun r hr => ?_, fun x hx hxne => hlive _ (h.large x (hlarge ▸ hx) hxne), ?_,
    fun r hr => ?_⟩, hmax, hlarge, hlive⟩
  · -- `current` is the first block that has not failed too often
    obtain ⟨x, hx⟩ := hblocks.chain.drop
    have hcurrent : (rest ++ [q, b]).head? = some s'.current := by
      rw [← hhead]
      cases rest <;> rfl
    obtain rfl := hx.head?_eq hcurrent
    exact hx
  · rw [hregions] at hr
    obtain rfl | hr := List.mem_cons.mp hr
    · exact ⟨hfresh.1, hfresh.2.2.1, hpos⟩
    · exact h.regions r hr
  · rw [hlarge]
    exact h.large_ne
  · rw [hallocs] at hr
    obtain rfl | hr := List.mem_cons.mp hr
    · refine ⟨b, (hmem b).mpr (Or.inr rfl), new, hgrowth.block, ?_, Nat.le_of_eq hlast.symm⟩
      exact Nat.le_of_eq hplace.symm
    · obtain ⟨a, ha, d, hd, hfrom, hto⟩ := h.allocs r hr
      obtain ⟨d', hd', hlast', -⟩ := hgrowth.old (hne a ha) hd
      exact ⟨a, (hmem a).mpr (Or.inl ha), d', hd', hfrom, hlast' ▸ hto⟩

end CppInOne.Pool
