import CppInOne.Lib.Transition
import CppInOne.Pool.BlockChain

/-!
# Reachable pools

A pool is well formed after any calls in which it has only handed out places inside its blocks
and only linked blocks that `malloc` had just returned.

## Main definitions

- `Fine` — the pool has done so

## Main results

- `exists_wellFormed` — a reachable pool that is fine is well formed
-/

namespace CppInOne.Pool
open Function Alignment Transition

/-- The place lies in the free space, and the new block is the one that gets a header. -/
def Event.Fine : Event → Prop
  | .served last m end_ => last ≤ m ∧ m ≤ end_
  | .grown p m => p = m

instance (e : Event) : Decidable e.Fine := by
  cases e
  · exact inferInstanceAs (Decidable (_ ∧ _))
  · exact inferInstanceAs (Decidable (_ = _))

def Fine (s : State) : Prop := ∀ e ∈ s.trace, e.Fine

instance (s : State) : Decidable (Fine s) :=
  inferInstanceAs (Decidable (∀ e ∈ s.trace, e.Fine))

variable {size n m p b : UInt64} {s s' : State} {before after blocks l : List UInt64}
  {d : PoolData} {align : Bool} {env : Env} {rounds : Nat}

theorem fine_concat {e : Event} (h : s'.trace = s.trace ++ [e]) : Fine s' ↔ Fine s ∧ e.Fine := by
  simp only [Fine, h, List.mem_append, List.mem_singleton, or_imp, forall_and, forall_eq]

/-- Either a place in a block is handed out, or the pool grows. -/
theorem palloc_small_cases (hs : s.ngx_palloc_small n align env = some (s', m))
    (hfine : Fine s') : Fine s ∧
    ((∃ b d, s.data b = some d ∧ d.last ≤ m ∧ m.toNat + n.toNat ≤ d.end_.toNat ∧
        s' = s.handOut b d m n) ∨
      s.ngx_palloc_block n env = some (s', m) ∧ (env.block = 0 ∨ env.p = env.block)) := by
  simp only [State.ngx_palloc_small] at hs
  split at hs
  · cases hs
  · rename_i t m' hsearch
    cases hs
    obtain ⟨b, d, hd, -, hroom, rfl⟩ := State.search_served hsearch
    obtain ⟨hfine, hlast, hend⟩ := (fine_concat rfl).mp hfine
    exact ⟨hfine, Or.inl ⟨b, d, hd, hlast, (State.le_sub_iff hend).mp hroom, rfl⟩⟩
  · rename_i t hsearch
    obtain rfl := State.search_none hsearch
    have hblock := hs
    obtain ⟨hzero, rfl, -⟩ | ⟨_, _, _, _, -, -, -, -, -, hcount, -, rfl⟩ :=
      State.palloc_block_cases hs
    · exact ⟨hfine, Or.inr ⟨hblock, Or.inl hzero⟩⟩
    · obtain ⟨-, -, -, -, -, -, htrace⟩ := State.countFailures_frame hcount
      obtain ⟨hfine, hp⟩ := (fine_concat htrace).mp hfine
      exact ⟨hfine, Or.inr ⟨hblock, Or.inr hp⟩⟩

theorem WellFormed.palloc_small (h : WellFormed size s before after)
    (hn : n.toNat + 64 ≤ size.toNat) (hs : s.ngx_palloc_small n align env = some (s', m))
    (hfine : Fine s') :
    ∃ before' after', WellFormed size s' before' after' ∧ s'.large = s.large ∧
      ∀ a, Live s (before ++ after) a → Live s' (before' ++ after') a := by
  obtain ⟨-, ⟨b, d, hd, hlast, hend, rfl⟩ | ⟨hblock, hp⟩⟩ := palloc_small_cases hs hfine
  · exact ⟨before, after, h.handOut hd hlast hend, rfl, fun _ ha => ha⟩
  · obtain ⟨before', after', h', -, hlarge, hlive⟩ := h.palloc_block hn hblock hp
    exact ⟨before', after', h', hlarge, hlive⟩

theorem pfree_trace (hs : s.ngx_pfree p = some s') : s'.trace = s.trace := by
  simp only [State.ngx_pfree, State.free] at hs
  split at hs
  · cases hs
    rfl
  · split at hs
    · cases hs
      rfl
    · split at hs
      · cases hs
        rfl
      · cases hs

/-- What becomes of the new node does not show in the trace. -/
theorem fine_of_node {s₂ : State} {p node : UInt64} (hfine : Fine s')
    (hnode : node = 0 ∧ s₂.ngx_pfree p = some s' ∧ m = 0 ∨
      node ≠ 0 ∧ s' = { s₂ with large := ⟨node, p⟩ :: s₂.large } ∧ m = p) : Fine s₂ := by
  obtain ⟨-, hfree, -⟩ | ⟨-, rfl, -⟩ := hnode
  · rw [Fine, ← pfree_trace hfree]
    exact hfine
  · exact hfine

theorem palloc_large_fine (hs : s.ngx_palloc_large n env = some (s', m)) (hfine : Fine s') :
    Fine s := by
  obtain ⟨-, rfl, -⟩ | ⟨t, -, -, rfl, ⟨large, -, rfl, -⟩ | ⟨s₂, node, hsmall, hnode⟩⟩ :=
    State.palloc_large_cases hs
  · exact hfine
  · exact hfine
  · exact (palloc_small_cases hsmall (fine_of_node hfine hnode)).1

theorem WellFormed.palloc_large (h : WellFormed size s before after) (hn : 0 < n.toNat)
    (hs : s.ngx_palloc_large n env = some (s', m)) (hfine : Fine s') :
    ∃ before' after', WellFormed size s' before' after' := by
  obtain ⟨-, rfl, -⟩ | ⟨t, hlarge, hfresh, ht, hnode⟩ := State.palloc_large_cases hs
  · exact ⟨before, after, h⟩
  have hwell := h.malloc hfresh hn
  have hlive : Live t (before ++ after) env.large := by
    refine ⟨h.notMem_of_fresh hfresh hn, n, ?_⟩
    rw [ht]
    exact List.mem_cons_self
  have hother : ∀ l ∈ t.large, l.alloc ≠ 0 → l.alloc ≠ env.large := by
    rw [ht]
    intro l hl hne
    obtain ⟨-, k, hk⟩ := h.large l hl hne
    exact hfresh.ne hn hk (h.regions _ hk).2.2
  rw [← ht] at hwell
  obtain ⟨large, hreuse, rfl, -⟩ | ⟨s₂, node, hsmall, hnode⟩ := hnode
  · -- the node of a region that has been freed
    obtain ⟨l₁, node, l₂, hsplit, rfl⟩ := reuse_eq_some hreuse
    have hlarge' : t.large = l₁ ++ ⟨node, 0⟩ :: l₂ := by
      rw [ht]
      exact hsplit
    exact ⟨before, after, hwell.reuseNode hlarge' hlarge hlive hother⟩
  · have hfine₂ : Fine s₂ := fine_of_node hfine hnode
    have hsize := h.size_pos
    obtain ⟨before', after', h', hsame, hkeep⟩ :=
      hwell.palloc_small (n := sizeof_ngx_pool_large_s) (show 16 + 64 ≤ size.toNat by omega)
        hsmall hfine₂
    refine ⟨before', after', ?_⟩
    obtain ⟨-, hfree, -⟩ | ⟨-, rfl, -⟩ := hnode
    · exact h'.ngx_pfree hfree
    · rw [← hsame] at hother
      exact h'.addNode hlarge (hkeep _ hlive) hother

theorem WellFormed.room (h : WellFormed size s before after) (hn : n ≤ s.max) :
    n.toNat + 64 ≤ size.toNat := by
  have hle : n.toNat ≤ s.max.toNat := UInt64.le_iff_toNat_le.mp hn
  have hmax := h.max.1
  omega

/-- `ngx_palloc` and `ngx_pnalloc`. -/
theorem allocate_fine (align : Bool) (hfine : Fine s')
    (hs : (if n ≤ s.max then s.ngx_palloc_small n align env else s.ngx_palloc_large n env) =
      some (s', m)) : Fine s := by
  split at hs
  · exact (palloc_small_cases hs hfine).1
  · exact palloc_large_fine hs hfine

theorem WellFormed.allocate (h : WellFormed size s before after) (align : Bool)
    (hfine : Fine s')
    (hs : (if n ≤ s.max then s.ngx_palloc_small n align env else s.ngx_palloc_large n env) =
      some (s', m)) : ∃ before' after', WellFormed size s' before' after' := by
  split at hs
  · rename_i hn
    obtain ⟨before', after', h', -⟩ := h.palloc_small (h.room hn) hs hfine
    exact ⟨before', after', h'⟩
  · rename_i hn
    exact h.palloc_large (toNat_pos_of_lt (UInt64.not_le.mp hn)) hs hfine

theorem resetLarge_cases {i : Nat} (hs : s.resetLarge i = some s') :
    s' = s ∨ ∃ p, s.ngx_pfree p = some s' := by
  simp only [State.resetLarge] at hs
  split at hs
  · cases hs
  · split at hs
    · cases hs
      exact Or.inl rfl
    · exact Or.inr ⟨_, hs⟩

/-- The first loop of `ngx_resent_pool` keeps what `ngx_pfree` keeps. -/
theorem resetLarges {I : State → Prop} (hI : ∀ s s' p, I s → s.ngx_pfree p = some s' → I s')
    (h : I s) (nodes : List Nat) (hs : nodes.foldlM State.resetLarge s = some s') : I s' := by
  induction nodes generalizing s with
  | nil =>
    cases hs
    exact h
  | cons i nodes ih =>
    rw [List.foldlM_cons] at hs
    obtain ⟨t, ht, hrest⟩ := Option.bind_eq_some_iff.mp hs
    obtain rfl | ⟨p, hp⟩ := resetLarge_cases ht
    · exact ih h hrest
    · exact ih (hI s t p h hp) hrest

/-- The two loops of `ngx_resent_pool`, with the first header between them. -/
theorem resent_pool_cases (hs : s.ngx_resent_pool rounds = some s') :
    ∃ t d u, (List.range s.large.length).foldlM State.resetLarge s = some t ∧
      t.data t.pool = some d ∧
      (t.setData t.pool { d with last := t.pool + sizeof_ngx_pool_s, failed := 0 }).resetBlocks
        rounds d.next = some u ∧
      s' = { u with current := u.pool, large := [], allocs := [] } := by
  simp only [State.ngx_resent_pool] at hs
  split at hs
  · cases hs
  rename_i t hlarges
  split at hs
  · cases hs
  rename_i d hd
  split at hs
  · cases hs
  rename_i u hloop
  cases hs
  exact ⟨t, d, u, hlarges, hd, hloop, rfl⟩

theorem resetBlocks_frame (hs : s.resetBlocks rounds p = some s') :
    s'.pool = s.pool ∧ s'.max = s.max ∧ s'.regions = s.regions ∧ s'.trace = s.trace := by
  induction rounds generalizing s p with
  | zero => cases hs
  | succ rounds ih =>
    simp only [State.resetBlocks] at hs
    split at hs
    · cases hs
      exact ⟨rfl, rfl, rfl, rfl⟩
    · split at hs
      · cases hs
      · have hrest := ih hs
        exact hrest

/-- The second loop of `ngx_resent_pool`. -/
theorem Blocks.resetBlocks (h : Blocks size s blocks) (hsize : 96 ≤ size.toNat)
    (hchain : Chain (links s.data) 0 p l) (hs : s.resetBlocks rounds p = some s') :
    Blocks size s' blocks ∧
      ∀ a, failures s'.data a = if a ∈ l then 0 else failures s.data a := by
  induction rounds generalizing s p l with
  | zero => cases hs
  | succ rounds ih =>
    simp only [State.resetBlocks] at hs
    split at hs
    · rename_i hp
      subst hp
      cases hs
      cases l with
      | nil => exact ⟨h, by simp⟩
      | cons a l => exact absurd rfl (hchain.ne_null (List.cons_ne_nil a l))
    · rename_i hp
      split at hs
      · cases hs
      · rename_i d hd
        have hstop : d.end_.toNat = p.toNat + size.toNat := (h.blockAt hd).end_
        have hend := d.end_.toNat_lt
        have hlast := toNat_add_pool_data_t (p := p) (by omega)
        have hblocks : Blocks size (s.setData p
            { d with last := p + sizeof_ngx_pool_data_t, failed := 0 }) blocks := by
          refine h.setData hd rfl rfl (Nat.le_of_eq hlast.symm) ?_
          rw [UInt64.le_iff_toNat_le, hlast]
          show p.toNat + 32 ≤ d.end_.toNat
          omega
        obtain _ | ⟨a, l⟩ := l
        · exact absurd (Chain.nil_iff.mp hchain) hp
        · obtain ⟨rfl, e, he, htail⟩ := chain_cons hchain
          obtain rfl := Option.some.inj (hd.symm.trans he)
          have hlinks : links (s.setData p
              { d with last := p + sizeof_ngx_pool_data_t, failed := 0 }).data = links s.data :=
            links_update hd rfl
          rw [← hlinks] at htail
          obtain ⟨hrest, hfailures⟩ := ih hblocks htail hs
          refine ⟨hrest, fun b => (hfailures b).trans ?_⟩
          by_cases hbp : b = p
          · subst hbp
            have hzero : failures (s.setData b
                { d with last := b + sizeof_ngx_pool_data_t, failed := 0 }).data b = 0 :=
              failures_of_data (update_self _ _ _)
            simp [hzero]
          · have hsame : failures (s.setData p
                { d with last := p + sizeof_ngx_pool_data_t, failed := 0 }).data b =
                  failures s.data b := failures_update_of_ne hbp _
            simp [hsame, hbp]

/-- After a reset every block is empty, none has failed, and `current` is the first one. -/
theorem WellFormed.resent_pool (h : WellFormed size s before after)
    (hs : s.ngx_resent_pool rounds = some s') : ∃ after', WellFormed size s' [] after' := by
  obtain ⟨t, d, t', hlarges, hd, hloop, rfl⟩ := resent_pool_cases hs
  -- the large blocks are freed first, and the pool stays well formed
  have ht := resetLarges (I := fun s => WellFormed size s before after)
    (fun _ _ _ h hs => h.ngx_pfree hs) h _ hlarges
  have hsize := h.size_pos
  obtain ⟨a, rest, hblocks⟩ := List.exists_cons_of_ne_nil
    (List.append_ne_nil_of_right_ne_nil before ht.nonempty)
  have hwell := ht.toBlocks
  rw [hblocks] at hwell
  have hstop : d.end_.toNat = t.pool.toNat + size.toNat := (hwell.blockAt hd).end_
  have hlt := d.end_.toNat_lt
  have hlast := toNat_add_pool_s (p := t.pool) (by omega)
  -- the header of the first block is set back
  have hfirst : Blocks size (t.setData t.pool
      { d with last := t.pool + sizeof_ngx_pool_s, failed := 0 }) (a :: rest) := by
    refine hwell.setData hd rfl rfl ?_ ?_
    · rw [hlast]
      omega
    · rw [UInt64.le_iff_toNat_le, hlast]
      show t.pool.toNat + 64 ≤ d.end_.toNat
      omega
  have hzero : failures (t.setData t.pool
      { d with last := t.pool + sizeof_ngx_pool_s, failed := 0 }).data t.pool = 0 :=
    failures_of_data (update_self _ _ _)
  obtain ⟨hpool, e, he, htail⟩ := chain_cons hwell.chain
  obtain rfl := Option.some.inj (hd.symm.trans he)
  have hlinks : links (t.setData t.pool
      { d with last := t.pool + sizeof_ngx_pool_s, failed := 0 }).data = links t.data :=
    links_update hd rfl
  rw [← hlinks] at htail
  -- the loop over the other blocks starts behind it
  obtain ⟨hreset, hfailures⟩ := hfirst.resetBlocks hsize htail hloop
  obtain ⟨-, hmax, hregions, -⟩ := resetBlocks_frame hloop
  have hnone : ∀ b ∈ a :: rest, failures t'.data b = 0 := by
    intro b hb
    rw [hfailures]
    obtain rfl | hb := List.mem_cons.mp hb
    · rw [← hpool, hzero, ite_self]
    · exact if_pos hb
  refine ⟨a :: rest, ⟨⟨hreset.chain, hreset.block, hreset.domain⟩, h.min,
    hmax ▸ ht.max, hreset.chain, List.cons_ne_nil a rest, fun b hb => ?_, ?_, ?_, by simp,
    List.Pairwise.nil, by simp⟩⟩
  · rw [hnone b hb]
    exact Nat.zero_le 5
  · refine List.Pairwise.imp_of_mem (fun _ hb _ => ?_) (List.pairwise_of_forall fun _ _ => trivial)
    rw [hnone _ hb]
    exact Nat.zero_le _
  · intro r hr
    exact ht.regions r (hregions ▸ hr)

theorem resent_pool_trace (hs : s.ngx_resent_pool rounds = some s') : s'.trace = s.trace := by
  obtain ⟨t, d, u, hlarges, -, hloop, rfl⟩ := resent_pool_cases hs
  obtain ⟨-, -, -, htrace⟩ := resetBlocks_frame hloop
  have hlarge : t.trace = s.trace := resetLarges (I := fun t => t.trace = s.trace)
    (fun _ _ _ h hs => (pfree_trace hs).trans h) rfl _ hlarges
  exact htrace.trans hlarge

/-- The calls of `ngx_palloc` in `ngx_pool_cleanup_add`; nothing but the list changes behind
them. -/
theorem cleanup_add_cases {env' : Env} (hs : s.ngx_pool_cleanup_add n env env' = some (s', m)) :
    ∃ t c cleanup, s.ngx_palloc sizeof_ngx_pool_cleanup_s env = some (t, c) ∧
      (s' = { t with cleanup } ∨
        ∃ t' data, t.ngx_palloc n env' = some (t', data) ∧ s' = { t' with cleanup }) := by
  simp only [State.ngx_pool_cleanup_add] at hs
  split at hs
  · cases hs
  rename_i hpalloc
  split at hs
  · cases hs
    exact ⟨_, _, _, hpalloc, Or.inl rfl⟩
  split at hs
  · cases hs
    exact ⟨_, _, _, hpalloc, Or.inl rfl⟩
  split at hs
  · cases hs
  rename_i hpalloc'
  split at hs
  · cases hs
    exact ⟨_, _, _, hpalloc, Or.inr ⟨_, _, hpalloc', rfl⟩⟩
  · cases hs
    exact ⟨_, _, _, hpalloc, Or.inr ⟨_, _, hpalloc', rfl⟩⟩

theorem WellFormed.setCleanup (h : WellFormed size s before after) (cleanup : List Cleanup) :
    WellFormed size { s with cleanup } before after :=
  ⟨⟨h.chain, h.block, h.domain⟩, h.min, h.max, h.current, h.nonempty, h.failed_le,
    h.failed_sorted, h.regions, h.large, h.large_ne, h.allocs⟩

/-- **Step lemma**: a call keeps the pool well formed. -/
theorem wellFormed_step (r : Request) (h : Fine s → ∃ before after, WellFormed size s before after)
    (hs : step s r = some s') (hfine : Fine s') :
    ∃ before after, WellFormed size s' before after := by
  obtain ⟨⟨t, m⟩, hcall, rfl⟩ := Option.map_eq_some_iff.mp hs
  cases r with
  | palloc n env | pcalloc n env =>
    obtain ⟨before, after, h⟩ := h (allocate_fine true hfine hcall)
    exact h.allocate true hfine hcall
  | pnalloc n env =>
    obtain ⟨before, after, h⟩ := h (allocate_fine false hfine hcall)
    exact h.allocate false hfine hcall
  | pfree p =>
    obtain ⟨t, hfree, heq⟩ := Option.map_eq_some_iff.mp hcall
    cases heq
    rw [Fine, pfree_trace hfree] at hfine
    obtain ⟨before, after, h⟩ := h hfine
    exact ⟨before, after, h.ngx_pfree hfree⟩
  | resentPool rounds =>
    obtain ⟨t, hreset, heq⟩ := Option.map_eq_some_iff.mp hcall
    cases heq
    rw [Fine, resent_pool_trace hreset] at hfine
    obtain ⟨before, after, h⟩ := h hfine
    exact ⟨[], h.resent_pool hreset⟩
  | cleanupAdd n env env' =>
    obtain ⟨u, c, cleanup, hpalloc, rfl | ⟨u', data, hpalloc', rfl⟩⟩ := cleanup_add_cases hcall
    · have hfine : Fine u := hfine
      obtain ⟨before, after, h⟩ := h (allocate_fine true hfine hpalloc)
      obtain ⟨before', after', h'⟩ := h.allocate true hfine hpalloc
      exact ⟨before', after', h'.setCleanup cleanup⟩
    · have hfine : Fine u' := hfine
      have hmiddle : Fine u := allocate_fine true hfine hpalloc'
      obtain ⟨before, after, h⟩ := h (allocate_fine true hmiddle hpalloc)
      obtain ⟨before', after', h'⟩ := h.allocate true hmiddle hpalloc
      obtain ⟨before'', after'', h''⟩ := h'.allocate true hfine hpalloc'
      exact ⟨before'', after'', h''.setCleanup cleanup⟩

theorem wellFormed_create {base : UInt64} (hsize : NGX_MIN_POOL_SIZE ≤ size)
    (hbase : Fresh [] ⟨base, size⟩) : WellFormed size (ngx_create_pool size base) [] [base] := by
  have hmin : 96 ≤ size.toNat := UInt64.le_iff_toNat_le.mp hsize
  have hsmall : sizeof_ngx_pool_s ≤ size := UInt64.le_trans (by decide) hsize
  obtain ⟨first, hdata, hlast, -, hend, hnext, hfailed⟩ := create_first hsmall hbase
  have hchain : Chain (links (ngx_create_pool size base).data) 0 base [base] :=
    .cons hbase.1 (links_eq_some.mpr ⟨first, hdata, hnext⟩) .nil
  have hzero : failures (ngx_create_pool size base).data base = 0 := by
    rw [failures_of_data hdata, hfailed]
    rfl
  refine ⟨⟨hchain, ?_, ?_⟩, hsize, (create_max hsize).2, hchain, List.cons_ne_nil base [], ?_,
    List.pairwise_singleton _ _, ?_, by simp [ngx_create_pool], List.Pairwise.nil,
    by simp [ngx_create_pool]⟩
  · intro a ha
    obtain rfl := List.mem_singleton.mp ha
    refine ⟨first, hdata, List.mem_cons_self, hend, by omega, ?_⟩
    rw [UInt64.le_iff_toNat_le, hlast, hend]
    omega
  · intro a d hd
    by_contra hne
    have hab : a ≠ base := fun heq => hne (List.mem_singleton.mpr heq)
    have hnone : (ngx_create_pool size base).data a = none := by
      simp [ngx_create_pool, hab]
    rw [hnone] at hd
    cases hd
  · intro a ha
    obtain rfl := List.mem_singleton.mp ha
    rw [hzero]
    exact Nat.zero_le 5
  · intro r hr
    obtain rfl := List.mem_singleton.mp hr
    exact ⟨hbase.1, hbase.2.2.1, (show 0 < size.toNat by omega)⟩

/-- **A reachable pool is well formed** if it has never handed out a place outside the free space
and never linked anything but what `malloc` has just returned. -/
theorem exists_wellFormed {base : UInt64} (hsize : NGX_MIN_POOL_SIZE ≤ size)
    (hbase : Fresh [] ⟨base, size⟩) (hs : Reachable step (ngx_create_pool size base) s)
    (hfine : Fine s) : ∃ before after, WellFormed size s before after := by
  have hinv := reachable_invariant
    (I := fun s => Fine s → ∃ before after, WellFormed size s before after)
    (fun _ r _ h hs hfine => wellFormed_step r h hs hfine)
    (fun _ => ⟨[], [base], wellFormed_create hsize hbase⟩) hs
  exact hinv hfine

end CppInOne.Pool
