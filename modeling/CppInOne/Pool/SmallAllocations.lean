import CppInOne.Lib.Transition
import CppInOne.Pool.NgxMemPool

/-!
# Small allocations from the existing block

As long as the block that `ngx_create_pool` makes serves every request, the pool is a bump
allocator. It keeps inside the block when rounding up never passes `d.end`; an aligned request
that it does pass is served all the same, because the remaining space is computed as a
`size_t`.

## Main results

- `small_allocations_sound` — the calls for which the allocator is right, and the sizes of a
  pool for which it always is
-/

namespace CppInOne.Pool
open Function Alignment Transition

/-- A request for at most `max` bytes that is served without new memory. -/
def serve (s : State) (r : Request) : Option State :=
  match r.memory, call s r with
  | some (size, _, _), some (s', m) =>
    if size ≤ s.max ∧ s'.allocs = ⟨m, size⟩ :: s.allocs ∧ s'.regions = s.regions then some s'
    else none
  | _, _ => none

/-- What the call returns lies in the block, overlaps nothing and is aligned. -/
def Sound (s : State) (r : Request) : Prop :=
  ∀ size align env s' m, r.memory = some (size, align, env) → call s r = some (s', m) →
    ∃ d, s'.data s'.pool = some d ∧ d.last ≤ d.end_ ∧
      s.pool.toNat + sizeof_ngx_pool_s.toNat ≤ m.toNat ∧
      m.toNat + size.toNat ≤ d.end_.toNat ∧ (∀ a ∈ s.allocs, a.Disjoint ⟨m, size⟩) ∧
      (align = true → NGX_ALIGNMENT.toNat ∣ m.toNat)

/-- Rounding up `d.last` does not pass `d.end`. -/
def Rounds (s : State) : Prop := ∀ d ∈ s.data s.pool, roundUp 8 d.last.toNat ≤ d.end_.toNat

/-- An aligned request comes when the block has room for the padding. -/
def Fits (s : State) (r : Request) : Prop :=
  ∀ q ∈ r.memory, q.2.1 = true → Rounds s

instance (s : State) (r : Request) : Decidable (Fits s r) :=
  inferInstanceAs (Decidable (∀ q ∈ r.memory, q.2.1 = true →
    ∀ d ∈ s.data s.pool, roundUp 8 d.last.toNat ≤ d.end_.toNat))

/-- The only block is filled from its start up to `d.last`. -/
structure Bump (base size : UInt64) (s : State) (d : PoolData) : Prop where
  pool : s.pool = base
  current : s.current = base
  data : s.data base = some d
  next : d.next = 0
  end_ : d.end_ = base + size
  header : base.toNat + 64 ≤ d.last.toNat
  last : d.last ≤ d.end_
  allocs : ∀ a ∈ s.allocs, a.stop ≤ d.last.toNat
  max : 32 ≤ s.max.toNat

variable {base size n m : UInt64} {s s' : State} {d : PoolData} {r : Request} {align : Bool}
  {env : Env}

/-- The pool as it is created, with a block that does not end behind the address space. -/
theorem bump_create (hsize : NGX_MIN_POOL_SIZE ≤ size) (hbase : Fresh [] ⟨base, size⟩) :
    ∃ d, Bump base size (ngx_create_pool size base) d := by
  have hmin : 96 ≤ size.toNat := UInt64.le_iff_toNat_le.mp hsize
  have hsmall : sizeof_ngx_pool_s ≤ size := UInt64.le_trans (by decide) hsize
  obtain ⟨d, hdata, hlast, hend, hstop, hnext, -⟩ := create_first hsmall hbase
  refine ⟨d, rfl, rfl, hdata, hnext, hend, Nat.le_of_eq hlast.symm, ?_, by simp [ngx_create_pool],
    (create_max hsize).1⟩
  rw [UInt64.le_iff_toNat_le, hlast, hstop]
  omega

theorem Bump.search (h : Bump base size s d) (n : UInt64) (align : Bool) (rounds : Nat) :
    s.search n align (rounds + 1) base =
      if d.end_ - State.place d align ≥ n then
        some (s.handOut base d (State.place d align) n, some (State.place d align))
      else some (s, none) := by
  simp only [State.search, h.data, h.next, if_true]

/-- Either a request of no more than `max` bytes finds its place, or it needs new memory. -/
theorem serve_eq_some (h : Bump base size s d) (hs : serve s r = some s') :
    ∃ n align env, r.memory = some (n, align, env) ∧
      call s r = some (s', State.place d align) ∧ n ≤ d.end_ - State.place d align ∧
      s' = s.handOut base d (State.place d align) n := by
  simp only [serve] at hs
  split at hs
  · rename_i n align env t m hmemory hcall
    obtain ⟨⟨hn, hallocs, hregions⟩, hs⟩ := Option.ite_none_right_eq_some.mp hs
    cases hs
    refine ⟨n, align, env, hmemory, ?_⟩
    rw [State.call_of_memory hmemory hn, State.ngx_palloc_small, h.current] at hcall ⊢
    cases hrounds : env.rounds with
    | zero =>
      rw [hrounds] at hcall
      cases hcall
    | succ rounds =>
      rw [hrounds, h.search] at hcall
      rw [h.search]
      by_cases hroom : d.end_ - State.place d align ≥ n
      · rw [if_pos hroom] at hcall ⊢
        cases hcall
        exact ⟨rfl, hroom, rfl⟩
      · -- without room either nothing is returned or memory is allocated
        rw [if_neg hroom] at hcall
        obtain ⟨-, rfl, -⟩ | ⟨first, counted, p, d', -, -, -, -, -, hcount, -, rfl⟩ :=
          State.palloc_block_cases hcall
        · exact absurd hallocs List.ne_cons_self
        · obtain ⟨-, -, -, -, hcounted, -⟩ := State.countFailures_frame hcount
          exact absurd (hcounted.symm.trans hregions).symm List.ne_cons_self
  · cases hs

/-- Bytes that lie between `d.last` and `d.end` keep the block filled. -/
theorem Bump.handOut (h : Bump base size s d) (hlast : d.last.toNat ≤ m.toNat)
    (hend : m.toNat + n.toNat ≤ d.end_.toNat) :
    Bump base size (s.handOut base d m n) { d with last := m + n } := by
  have hadd : (m + n).toNat = m.toNat + n.toNat :=
    toNat_add (Nat.lt_of_le_of_lt hend d.end_.toNat_lt)
  have hheader := h.header
  refine ⟨h.pool, h.current, update_self _ _ _, h.next, h.end_, ?_, ?_, ?_, h.max⟩
  · show base.toNat + 64 ≤ (m + n).toNat
    omega
  · rw [UInt64.le_iff_toNat_le, hadd]
    exact hend
  · intro a ha
    show a.stop ≤ (m + n).toNat
    obtain rfl | ha := List.mem_cons.mp ha
    · exact Nat.le_of_eq hadd.symm
    · have hstop := h.allocs a ha
      omega

/-- A place of its own in the block is all that a sound call needs. -/
theorem Bump.sound (h : Bump base size s d) (hmemory : r.memory = some (n, align, env))
    (hcall : call s r = some (s.handOut base d m n, m)) (hlast : d.last.toNat ≤ m.toNat)
    (hend : m.toNat + n.toNat ≤ d.end_.toNat)
    (halign : align = true → NGX_ALIGNMENT.toNat ∣ m.toNat) : Sound s r := by
  intro n' align' env' s' m' hmemory' hcall'
  rw [hmemory] at hmemory'
  cases hmemory'
  rw [hcall] at hcall'
  cases hcall'
  have hnew := h.handOut hlast hend
  have hheader := h.header
  refine ⟨_, ?_, hnew.last, ?_, hend, fun a ha => Or.inl ?_, halign⟩
  · rw [hnew.pool]
    exact hnew.data
  · rw [h.pool]
    show base.toNat + 64 ≤ m.toNat
    omega
  · exact Nat.le_trans (h.allocs a ha) hlast

theorem rounds_iff (h : Bump base size s d) :
    Rounds s ↔ roundUp 8 d.last.toNat ≤ d.end_.toNat := by
  rw [Rounds, h.pool, h.data]
  simp

/-- **Step lemma**: a call that is served keeps the block filled as long as it fits. -/
theorem Bump.step (h : Bump base size s d) (hfits : Fits s r) (hs : serve s r = some s') :
    Sound s r ∧ ∃ d', Bump base size s' d' := by
  obtain ⟨n, align, env, hmemory, hcall, hroom, rfl⟩ := serve_eq_some h hs
  have hplace : d.last.toNat ≤ (State.place d align).toNat ∧
      State.place d align ≤ d.end_ ∧
      (align = true → NGX_ALIGNMENT.toNat ∣ (State.place d align).toNat) := by
    cases align with
    | false => exact ⟨Nat.le_refl _, h.last, by simp⟩
    | true =>
      have hfit := (rounds_iff h).mp (hfits _ hmemory rfl)
      rw [UInt64.le_iff_toNat_le, State.toNat_place hfit]
      exact ⟨le_roundUp (by decide) _, hfit, fun _ => dvd_roundUp 8 _⟩
  have hend := (State.le_sub_iff hplace.2.1).mp hroom
  exact ⟨h.sound hmemory hcall hplace.1 hend hplace.2.2, _, h.handOut hplace.1 hend⟩

/-- A call that does not fit is served all the same, and is not sound. -/
theorem Bump.fits_of_sound (h : Bump base size s d) (hsound : Sound s r)
    (hs : serve s r = some s') : Fits s r := by
  obtain ⟨n, align, env, hmemory, hcall, -, rfl⟩ := serve_eq_some h hs
  intro q hq halign
  rw [hmemory] at hq
  cases hq
  cases halign
  rw [rounds_iff h]
  by_contra hfit
  obtain ⟨d', hd', -, hheader, hend, -⟩ := hsound _ _ _ _ _ hmemory hcall
  have hsame : d'.end_ = d.end_ := by
    have hself : (s.handOut base d (State.place d true) n).data
        (s.handOut base d (State.place d true) n).pool =
          some { d with last := State.place d true + n } := by
      show update s.data base _ s.pool = _
      rw [h.pool, update_self]
    rw [hself] at hd'
    cases hd'
    rfl
  have hpool : 64 ≤ s.pool.toNat + sizeof_ngx_pool_s.toNat := Nat.le_add_left _ _
  rw [hsame] at hend
  obtain hbehind | hbefore := State.place_outside (Nat.lt_of_not_le hfit)
  · omega
  · omega

theorem serve_of_room {rounds : Nat} (h : Bump base size s d)
    (hmemory : r.memory = some (n, align, env)) (hrounds : env.rounds = rounds + 1)
    (hn : n ≤ s.max) (hroom : n ≤ d.end_ - State.place d align) :
    serve s r = some (s.handOut base d (State.place d align) n) := by
  have hcall : call s r =
      some (s.handOut base d (State.place d align) n, State.place d align) := by
    rw [State.call_of_memory hmemory hn, State.ngx_palloc_small, h.current, hrounds, h.search,
      if_pos hroom]
  simp only [serve, hmemory, hcall]
  exact if_pos ⟨hn, rfl, rfl⟩

/-- Nothing but the number of rounds matters to a request that the block serves. -/
def quiet : Env := ⟨0, 0, 0, 1⟩

/-- Unaligned requests can use up the block. -/
theorem exists_full (h : Bump base size s d) :
    ∃ rs t d', run serve s rs = some t ∧ Bump base size t d' ∧ d'.last = d'.end_ := by
  have hlast : d.last.toNat ≤ d.end_.toNat := UInt64.le_iff_toNat_le.mp h.last
  generalize hfree : d.end_.toNat - d.last.toNat = free
  induction free using Nat.strong_induction_on generalizing s d with
  | _ free ih =>
    by_cases hfull : free = 0
    · refine ⟨[], s, d, rfl, h, UInt64.toNat_inj.mp ?_⟩
      omega
    · -- as much as fits, but at most `max` bytes
      have hsub := UInt64.toNat_sub_of_le _ _ h.last
      obtain ⟨n, hn, hpos, hle⟩ : ∃ n : UInt64, n ≤ s.max ∧ 0 < n.toNat ∧ n ≤ d.end_ - d.last := by
        by_cases hmax : s.max ≤ d.end_ - d.last
        · have hpos := h.max
          exact ⟨s.max, UInt64.le_refl _, by omega, hmax⟩
        · refine ⟨d.end_ - d.last, UInt64.le_of_lt (UInt64.not_le.mp hmax), ?_, UInt64.le_refl _⟩
          omega
      have hend := (State.le_sub_iff h.last).mp hle
      have hadd : (d.last + n).toNat = d.last.toNat + n.toNat :=
        toNat_add (Nat.lt_of_le_of_lt hend d.end_.toNat_lt)
      have hserve := serve_of_room (r := .pnalloc n quiet) h rfl rfl hn hle
      have hnew := h.handOut (Nat.le_refl _) hend
      obtain ⟨rs, t, d', hrun, hbump, hfilled⟩ :=
        ih (d.end_.toNat - (d.last + n).toNat) (by omega) hnew
          (UInt64.le_iff_toNat_le.mp hnew.last) rfl
      exact ⟨_ :: rs, t, d', run_cons_eq_some.mpr ⟨_, hserve, hrun⟩, hbump, hfilled⟩

/-- The block ends at a multiple of `NGX_ALIGNMENT` if its size is one. -/
theorem Bump.dvd_end (h : Bump base size s d) (hbase : Fresh [] ⟨base, size⟩) :
    8 ∣ d.end_.toNat ↔ 8 ∣ size.toNat := by
  have hadd : (base + size).toNat = base.toNat + size.toNat := toNat_add hbase.2.2.1
  have haligned : base.toNat % 16 = 0 := hbase.2.1
  rw [h.end_, hadd]
  omega

/-- **Small allocations stay in the block and never overlap where aligned requests fit, and only
there.** For a pool size that is a multiple of `NGX_ALIGNMENT` they always fit, for any other
size some requests do not. -/
theorem small_allocations_sound (hsize : NGX_MIN_POOL_SIZE ≤ size)
    (hbase : Fresh [] ⟨base, size⟩) :
    (∀ rs s, run serve (ngx_create_pool size base) rs = some s →
      (Guarded serve Sound (ngx_create_pool size base) rs ↔
        Guarded serve Fits (ngx_create_pool size base) rs)) ∧
    ((∀ rs s, run serve (ngx_create_pool size base) rs = some s →
      Guarded serve Sound (ngx_create_pool size base) rs) ↔
        NGX_ALIGNMENT.toNat ∣ size.toNat) := by
  obtain ⟨d₀, hstart⟩ := bump_create hsize hbase
  have hiff : ∀ rs s, run serve (ngx_create_pool size base) rs = some s →
      (Guarded serve Sound (ngx_create_pool size base) rs ↔
        Guarded serve Fits (ngx_create_pool size base) rs) := by
    intro rs s hrun
    refine guarded_congr (I := fun s => ∃ d, Bump base size s d) ?_ ?_ ⟨d₀, hstart⟩ hrun
    · rintro s r s' ⟨d, h⟩ hs
      exact ⟨fun hsound => h.fits_of_sound hsound hs, fun hfits => (h.step hfits hs).1⟩
    · rintro s r s' ⟨d, h⟩ hfits hs
      exact (h.step hfits hs).2
  refine ⟨hiff, fun hall => ?_, fun hdvd rs s hrun => (hiff rs s hrun).mpr ?_⟩
  · -- fill the block, then ask for an aligned range
    obtain ⟨rs, t, d, hrun, h, hfull⟩ := exists_full hstart
    have hserve := serve_of_room (r := .palloc 0 quiet) h rfl rfl (UInt64.zero_le) (UInt64.zero_le)
    have hrun' : run serve (ngx_create_pool size base) (rs ++ [.palloc 0 quiet]) =
        some (t.handOut base d (State.place d true) 0) := by
      rw [run_append, hrun]
      exact run_cons_eq_some.mpr ⟨_, hserve, rfl⟩
    have hfits := ((hiff _ _ hrun').mp (hall _ _ hrun'))
    have hrounds := (rounds_iff h).mp
      ((guarded_cons.mp ((guarded_append.mp hfits).2 t hrun)).1 _ rfl rfl)
    rw [hfull] at hrounds
    have hdvd := dvd_roundUp 8 d.end_.toNat
    rw [Nat.le_antisymm hrounds (le_roundUp (by decide) _)] at hdvd
    exact (h.dvd_end hbase).mp hdvd
  · have hfits : ∀ s r, (∃ d, Bump base size s d) → Fits s r := by
      rintro s r ⟨d, h⟩ q - -
      have hlast : d.last.toNat ≤ d.end_.toNat := UInt64.le_iff_toNat_le.mp h.last
      exact (rounds_iff h).mpr (roundUp_le (by decide) hlast ((h.dvd_end hbase).mpr hdvd))
    refine guarded_of_invariant hfits ?_ ⟨d₀, hstart⟩ rs
    rintro s r s' ⟨d, h⟩ hs
    exact (h.step (hfits s r ⟨d, h⟩) hs).2

/-- Requests that fill a block of 96 bytes, aligned and unaligned ones. -/
def mixed : List Request := [.pnalloc 3 quiet, .palloc 8 quiet, .pnalloc 9 quiet, .pcalloc 0 quiet]

theorem small_allocations_sound_mixed : ∃ s, run serve (ngx_create_pool 96 4096) mixed = some s ∧
    s.allocs = [⟨4192, 0⟩, ⟨4176, 9⟩, ⟨4168, 8⟩, ⟨4160, 3⟩] ∧
    Guarded serve Sound (ngx_create_pool 96 4096) mixed := by
  have hrun : run serve (ngx_create_pool 96 4096) mixed = some _ := rfl
  exact ⟨_, hrun, rfl, ((small_allocations_sound (by decide) (by decide)).1 mixed _ hrun).mpr
    (by decide)⟩

/-- A block of 97 bytes with 33 of them used: the range that comes next lies behind the block. -/
def passed : List Request := [.pnalloc 33 quiet, .palloc 8 quiet]

theorem passed_not_sound : ∃ s, run serve (ngx_create_pool 97 4096) passed = some s ∧
    s.allocs = [⟨4200, 8⟩, ⟨4160, 33⟩] ∧
    ¬ Guarded serve Sound (ngx_create_pool 97 4096) passed := by
  refine ⟨_, rfl, rfl, fun hsound => ?_⟩
  obtain ⟨-, hnext⟩ := guarded_cons.mp hsound
  obtain ⟨hlast, -⟩ := guarded_cons.mp (hnext _ rfl)
  obtain ⟨d, hd, hle, -⟩ := hlast 8 true quiet _ _ rfl rfl
  cases hd
  exact absurd hle (by decide)

end CppInOne.Pool
