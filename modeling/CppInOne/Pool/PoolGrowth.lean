import CppInOne.Pool.ReachablePool

/-!
# Growing a pool

`ngx_palloc_block` writes the header of a new block through `newpool`, which is the variable `p`
before it gets a value. The pool grows as intended in those runs where this happens to be what
`malloc` has just returned, and where no aligned request has been served behind the end of a
block.

## Main results

- `pool_grows` — for a request that no block can serve
-/

namespace CppInOne.Pool
open Function Alignment Transition

/-- Where the free space starts that a request can use. -/
def freeFrom (d : PoolData) (align : Bool) : Nat :=
  if align then roundUp 8 d.last.toNat else d.last.toNat

/-- The block has room for the request. -/
def CanServe (d : PoolData) (n : UInt64) (align : Bool) : Prop :=
  freeFrom d align + n.toNat ≤ d.end_.toNat

/-- Rounding up passes the end of the block. -/
def Passes (d : PoolData) (align : Bool) : Prop := d.end_.toNat < freeFrom d align

instance (d : PoolData) (n : UInt64) (align : Bool) : Decidable (CanServe d n align) :=
  inferInstanceAs (Decidable (_ ≤ _))

instance (d : PoolData) (align : Bool) : Decidable (Passes d align) :=
  inferInstanceAs (Decidable (_ < _))

/-- A block at `m` has been added for a request of `n` bytes that got the range at `r`; before,
the pool had these blocks, and the last ones of them from `current` on. -/
structure Grown (size : UInt64) (s s' : State) (blocks after : List UInt64) (m r n : UInt64) :
    Prop where
  chain : Chain (links s'.data) 0 s'.pool (blocks ++ [m])
  pool : s'.pool = s.pool
  regions : s'.regions = ⟨m, size⟩ :: s.regions
  old : ∀ a ∈ blocks, ∃ d d', s.data a = some d ∧ s'.data a = some d' ∧ d'.last = d.last ∧
    d'.end_ = d.end_
  block : ∃ d, s'.data m = some d ∧ m.toNat + sizeof_ngx_pool_data_t.toNat ≤ r.toNat ∧
    d.last.toNat = r.toNat + n.toNat ∧ d.last ≤ d.end_ ∧ d.end_.toNat = m.toNat + size.toNat
  disjoint : ∀ x ∈ s.allocs ++ s.regions, x.Disjoint ⟨r, n⟩
  current : ∃ passed rest, after = passed ++ rest ∧ rest.head? = some s'.current ∧
    ∀ a ∈ passed, 4 < failures s.data a

variable {size base n m p : UInt64} {s s' : State} {before after l : List UInt64}
  {d : PoolData} {align : Bool} {env : Env} {rounds : Nat} {r : Request}

/-! ## What the loop of `ngx_palloc_small` finds -/

theorem search_eq_none (hchain : Chain (links s.data) 0 p l) (hl : l ≠ [])
    (hrounds : l.length ≤ rounds)
    (hroom : ∀ a ∈ l, ∀ d ∈ s.data a, ¬ n ≤ d.end_ - State.place d align) :
    s.search n align rounds p = some (s, none) := by
  induction l generalizing p rounds with
  | nil => exact absurd rfl hl
  | cons a l ih =>
    obtain ⟨rfl, d, hd, htail⟩ := chain_cons hchain
    obtain ⟨k, rfl⟩ : ∃ k, rounds = k + 1 :=
      Nat.exists_eq_succ_of_ne_zero (Nat.ne_zero_of_lt hrounds)
    simp only [State.search, hd]
    rw [if_neg (hroom p List.mem_cons_self d hd)]
    obtain rfl | hne := eq_or_ne l []
    · rw [if_pos (Chain.nil_iff.mp htail)]
    · rw [if_neg (htail.ne_null hne)]
      exact ih htail hne (Nat.le_of_succ_le_succ hrounds)
        fun b hb => hroom b (List.mem_cons_of_mem p hb)

theorem no_room_of_search (hchain : Chain (links s.data) 0 p l)
    (h : s.search n align rounds p = some (s', none)) :
    ∀ a ∈ l, ∀ d ∈ s.data a, ¬ n ≤ d.end_ - State.place d align := by
  induction l generalizing p rounds with
  | nil => simp
  | cons a l ih =>
    obtain ⟨rfl, d, hd, htail⟩ := chain_cons hchain
    cases rounds with
    | zero => cases h
    | succ rounds =>
      simp only [State.search, hd] at h
      split at h
      · cases h
      · rename_i hroom
        have hrest : ∀ b ∈ l, ∀ d ∈ s.data b, ¬ n ≤ d.end_ - State.place d align := by
          split at h
          · rename_i hnext
            rw [hnext] at htail
            cases l with
            | nil => simp
            | cons b l => exact absurd rfl (htail.ne_null (List.cons_ne_nil b l))
          · exact ih htail h
        intro b hb e he
        obtain rfl | hb := List.mem_cons.mp hb
        · obtain rfl := Option.some.inj (hd.symm.trans he)
          exact hroom
        · exact hrest b hb e he

/-- The remaining space counts as huge behind the end of a block. -/
theorem room_of_passes (hlast : d.last ≤ d.end_) (hn : n.toNat ≤ 4095) (hpass : Passes d align) :
    n ≤ d.end_ - State.place d align := by
  have hle : d.last.toNat ≤ d.end_.toNat := UInt64.le_iff_toNat_le.mp hlast
  cases align with
  | false => exact absurd hpass (Nat.not_lt.mpr hle)
  | true =>
    have hend := d.end_.toNat_lt
    have hplace := (State.place d true).toNat_lt
    have hsub := UInt64.toNat_sub d.end_ (State.place d true)
    rw [UInt64.le_iff_toNat_le, hsub]
    obtain ⟨hbehind, hnear⟩ | ⟨hwrapped, hlimit⟩ := State.place_outside hpass
    · omega
    · omega

theorem not_room (hlast : d.last ≤ d.end_) (hserve : ¬ CanServe d n align)
    (hpass : ¬ Passes d align) : ¬ n ≤ d.end_ - State.place d align := by
  intro hroom
  have hfit := Nat.le_of_not_lt hpass
  cases align with
  | false => exact hserve ((State.le_sub_iff hlast).mp hroom)
  | true =>
    have hplace : (State.place d true).toNat = freeFrom d true := State.toNat_place hfit
    have hle : State.place d true ≤ d.end_ := by
      rw [UInt64.le_iff_toNat_le, hplace]
      exact hfit
    apply hserve
    rw [CanServe, ← hplace]
    exact (State.le_sub_iff hle).mp hroom

/-! ## The block that is added -/

theorem palloc_block_total (h : WellFormed size s before after) (hp : env.p = env.block)
    (hfresh : Fresh s.regions ⟨env.block, size⟩) (hrounds : after.length ≤ env.rounds) :
    ∃ s' m, s.ngx_palloc_block n env = some (s', m) := by
  obtain ⟨first, hfirst⟩ := h.block s.pool (h.pool_mem (by simp [h.nonempty]))
  have hsize := h.size_pos
  have hnotMem : env.block ∉ before ++ after :=
    h.notMem_of_fresh hfresh (show 0 < size.toNat by omega)
  obtain ⟨l, q, rfl⟩ := h.exists_last
  have hlength : l.length < env.rounds := by
    rw [List.length_append, List.length_singleton] at hrounds
    omega
  have hcount : ∀ t : State, (∃ e, t.data = update s.data env.block e) → t.current = s.current →
      ∃ u d, t.countFailures env.rounds t.current = some (u, q) ∧ u.data q = some d := by
    rintro t ⟨e, hdata⟩ hcurrent
    have hchain : Chain (links t.data) 0 t.current (l ++ [q]) := by
      rw [hdata, hcurrent]
      exact chain_update h.current (fun hmem => hnotMem (List.mem_append_right _ hmem)) e
    obtain ⟨⟨u, q'⟩, hu⟩ := countFailures_total hchain hlength
    obtain ⟨rfl, hcounted⟩ := countFailures_data hchain hu
    have hq : q' ∉ l := hchain.last_notMem
    have hne : q' ≠ env.block := by
      rintro rfl
      exact hnotMem (by simp)
    obtain ⟨d, hd⟩ := h.block q' (by simp)
    refine ⟨u, d, hu, ?_⟩
    rw [hcounted, counted, if_neg hq, hdata, update_of_ne hne]
    exact hd.data
  have hblock : env.block ≠ 0 := hfresh.1
  have hmalloc : s.malloc (first.end_ - s.pool) env.block =
      some { s with regions := ⟨env.block, size⟩ :: s.regions } := by
    rw [h.psize hfirst.data, State.malloc, if_neg hblock, if_pos hfresh]
  have hwrite : ∀ last end_, State.writeNewpool
      { s with regions := ⟨env.block, size⟩ :: s.regions } env.block last end_ env.p =
        some { s.setData env.block ⟨last, end_, 0, 0⟩ with
          regions := ⟨env.block, size⟩ :: s.regions
          trace := s.trace ++ [.grown env.block env.block] } := by
    intro last end_
    rw [hp, State.writeNewpool, if_pos (Or.inl rfl)]
    rfl
  let m := ngx_align_ptr (env.block + sizeof_ngx_pool_data_t) NGX_ALIGNMENT
  obtain ⟨u, d, hu, hd⟩ := hcount
    { s.setData env.block ⟨m + n, env.block + (first.end_ - s.pool), 0, 0⟩ with
      regions := ⟨env.block, size⟩ :: s.regions
      trace := s.trace ++ [.grown env.block env.block] } ⟨_, rfl⟩ rfl
  refine ⟨{ u.setData q { d with next := env.p } with allocs := ⟨m, n⟩ :: u.allocs }, m, ?_⟩
  rw [State.ngx_palloc_block]
  simp only [hfirst.data, hmalloc, hwrite]
  rw [if_neg hblock]
  simp only [m] at hu
  simp only [hu, hd, m]

/-- Growing by the block that `malloc` returns is what is asked for. -/
theorem grown_of_palloc_block (h : WellFormed size s before after)
    (hn : n.toNat + 64 ≤ size.toNat) (hs : s.ngx_palloc_block n env = some (s', m))
    (hblock : env.block ≠ 0) (hp : env.p = env.block) :
    Grown size s s' (before ++ after) after env.block m n := by
  obtain ⟨hfresh, hplace, l, q, passed, rest, new, rfl, hgrowth, hlast, hend, hnext, -,
    ⟨hsplit, hhead, hover, -⟩, hpool, -, -, hregions, -⟩ := palloc_block_growth h hn hs hblock hp
  have hsize := h.size_pos
  have hnotMem : env.block ∉ before ++ (l ++ [q]) :=
    h.notMem_of_fresh hfresh (show 0 < size.toNat by omega)
  refine ⟨?_, hpool, hregions, fun a ha => ?_,
    ⟨new, hgrowth.block, Nat.le_of_eq hplace.symm, hlast, ?_, hend⟩, ?_,
    passed, rest ++ [q], ?_, hhead, hover⟩
  · have hold := h.chain
    rw [← List.append_assoc] at hold hnotMem
    have hnew := hgrowth.chain hold hfresh.1 hnotMem hnext
    rw [hpool]
    simpa only [List.append_assoc, List.singleton_append] using hnew
  · obtain ⟨d, hd⟩ := h.block a ha
    have hne : a ≠ env.block := by
      rintro rfl
      exact hnotMem ha
    obtain ⟨d', hd', hlast', hend', -⟩ := hgrowth.old hne hd.data
    exact ⟨d, d', hd.data, hd', hlast', hend'⟩
  · rw [UInt64.le_iff_toNat_le]
    omega
  · have hdisjoint : ∀ x ∈ s.regions, x.Disjoint ⟨m, n⟩ := by
      intro x hx
      have hapart : env.block.toNat + size.toNat ≤ x.addr.toNat ∨ x.stop ≤ env.block.toNat :=
        hfresh.2.2.2 x hx
      show x.stop ≤ m.toNat ∨ m.toNat + n.toNat ≤ x.addr.toNat
      omega
    intro x hx
    obtain hx | hx := List.mem_append.mp hx
    · -- a range in a block lies in the region of the block
      obtain ⟨a, ha, d, hd, hfrom, hto⟩ := h.allocs x hx
      have he := h.blockAt hd
      have hle : d.last.toNat ≤ d.end_.toNat := UInt64.le_iff_toNat_le.mp he.last
      have hend' : d.end_.toNat = a.toNat + size.toNat := he.end_
      have hapart : a.toNat + size.toNat ≤ m.toNat ∨ m.toNat + n.toNat ≤ a.toNat :=
        hdisjoint _ he.region
      show x.stop ≤ m.toNat ∨ m.toNat + n.toNat ≤ x.addr.toNat
      omega
    · exact hdisjoint x hx
  · rw [hsplit, List.append_assoc]

/-- A header at the new block has been written through `p`. -/
theorem p_eq_of_header (hs : s.ngx_palloc_block n env = some (s', m)) (hblock : env.block ≠ 0)
    (hnone : s.data env.block = none) (hd : s'.data env.block = some d) :
    env.p = env.block := by
  obtain ⟨hzero, -⟩ | ⟨_, u, q, e, -, -, -, -, -, hcount, hq, rfl⟩ := State.palloc_block_cases hs
  · exact absurd hzero hblock
  by_contra hne
  have hnone' : u.data env.block = none :=
    countFailures_none hcount ((update_of_ne (Ne.symm hne) _ _).trans hnone)
  have hq' : env.block ≠ q := by
    rintro heq
    rw [← heq, hnone'] at hq
    cases hq
  have hsame : (u.setData q { e with next := env.p }).data env.block = none :=
    (update_of_ne hq' _ _).trans hnone'
  cases hsame.symm.trans hd

/-- **A pool grows as intended exactly if `p` is the block that `malloc` returns and no block is
passed by rounding up.** In a reachable pool that is fine so far, a request that no block from
`current` on can serve leads to a new block at the end of the chain, and the range lies in it. -/
theorem pool_grows (hsize : NGX_MIN_POOL_SIZE ≤ size) (hbase : Fresh [] ⟨base, size⟩)
    (hs : Reachable step (ngx_create_pool size base) s) (hfine : Fine s) :
    ∃ blocks after, Chain (links s.data) 0 s.pool blocks ∧ Chain (links s.data) 0 s.current after ∧
      after <:+ blocks ∧ ∀ r n align env, r.memory = some (n, align, env) → n ≤ s.max →
        Fresh s.regions ⟨env.block, size⟩ → after.length ≤ env.rounds →
        (∀ a ∈ after, ∀ d ∈ s.data a, ¬ CanServe d n align) →
          ((∃ s' m, call s r = some (s', m) ∧ Grown size s s' blocks after env.block m n) ↔
            env.p = env.block ∧ ∀ a ∈ after, ∀ d ∈ s.data a, ¬ Passes d align) := by
  obtain ⟨before, after, h⟩ := exists_wellFormed hsize hbase hs hfine
  refine ⟨before ++ after, after, h.chain, h.current, List.suffix_append before after, ?_⟩
  intro r n align env hmemory hn hfresh hrounds hserve
  have hblock : env.block ≠ 0 := hfresh.1
  have hpos : 0 < size.toNat := Nat.lt_of_lt_of_le (by decide) h.size_pos
  have hlast : ∀ a ∈ after, ∀ d ∈ s.data a, d.last ≤ d.end_ := by
    intro a _ d hd
    exact (h.blockAt hd).last
  rw [State.call_of_memory hmemory hn, State.ngx_palloc_small]
  constructor
  · rintro ⟨s', m, hcall, hgrown⟩
    split at hcall
    · cases hcall
    · -- a block that serves the request leaves the regions as they are
      rename_i t m' hsearch
      cases hcall
      obtain ⟨b, d, -, -, -, rfl⟩ := State.search_served hsearch
      exact absurd hgrown.regions.symm (List.cons_ne_self _ _)
    · rename_i t hsearch
      obtain rfl := State.search_none hsearch
      obtain ⟨d, hd, -⟩ := hgrown.block
      have hnone : t.data env.block = none := by
        rw [Option.eq_none_iff_forall_ne_some]
        intro e he
        exact h.notMem_of_fresh hfresh hpos (h.domain env.block e he)
      refine ⟨p_eq_of_header hcall hblock hnone hd, fun a ha e he hpass => ?_⟩
      have hlimit : n.toNat ≤ 4095 :=
        UInt64.le_iff_toNat_le.mp (UInt64.le_trans hn h.max.2)
      exact no_room_of_search h.current hsearch a ha e he
        (room_of_passes (hlast a ha e he) hlimit hpass)
  · rintro ⟨hp, hpass⟩
    -- no block has room, so the search comes to its end
    have hroom : ∀ a ∈ after, ∀ d ∈ s.data a, ¬ n ≤ d.end_ - State.place d align :=
      fun a ha d hd => not_room (hlast a ha d hd) (hserve a ha d hd) (hpass a ha d hd)
    rw [search_eq_none h.current h.nonempty hrounds hroom]
    obtain ⟨s', m, hs'⟩ := palloc_block_total h hp hfresh hrounds
    exact ⟨s', m, hs', grown_of_palloc_block h (h.room hn) hs' hblock hp⟩

/-- The requests that use up a block of 96 bytes. -/
def filled : List Request := [.palloc 32 ⟨0, 0, 0, 1⟩]

/-- The next request, with the value of `p`; `malloc` returns 8192. -/
def next (p : UInt64) : Request := .palloc 8 ⟨0, 8192, p, 1⟩

theorem pool_grows_next : ∃ s s' m blocks after,
    run step (ngx_create_pool 96 4096) filled = some s ∧ call s (next 8192) = some (s', m) ∧
      Grown 96 s s' blocks after 8192 m 8 := by
  have hrun : run step (ngx_create_pool 96 4096) filled = some _ := rfl
  obtain ⟨blocks, after, -, hcurrent, -, h⟩ :=
    pool_grows (by decide) (by decide) ⟨filled, hrun⟩ (by decide)
  obtain rfl : after = [4096] := hcurrent.unique (.cons (by decide) rfl .nil)
  obtain ⟨s', m, hcall, hgrown⟩ := (h (next 8192) 8 true ⟨0, 8192, 8192, 1⟩ rfl (by decide)
    (by decide) (by decide) (List.forall_mem_singleton.mpr fun d hd => by cases hd; decide)).mpr
    ⟨rfl, List.forall_mem_singleton.mpr fun d hd => by cases hd; decide⟩
  exact ⟨_, s', m, blocks, [4096], hrun, hcall, hgrown⟩

/-- The variable `p` holds the pool: the block is linked to itself. -/
theorem next_cyclic : ∃ s s' d, run step (ngx_create_pool 96 4096) filled = some s ∧
    s.data s.current = some d ∧ d.next = 0 ∧ ¬ CanServe d 8 true ∧ 8 ≤ s.max ∧
    Fresh s.regions ⟨8192, 96⟩ ∧ call s (next 4096) = some (s', 8224) ∧
    ¬ ∃ blocks, Chain (links s'.data) 0 s'.pool blocks := by
  refine ⟨_, _, _, rfl, rfl, rfl, by decide, by decide, by decide, rfl, ?_⟩
  rintro ⟨blocks, h⟩
  cases h with
  | cons hp hq htail =>
    cases hq
    exact absurd (htail.unique (.cons hp rfl htail)) (List.cons_ne_self _ _).symm

end CppInOne.Pool
