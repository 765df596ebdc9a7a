import CppInOne.Lib.ByteMemory
import CppInOne.Pool.PoolLayout

/-!
# Cleanups

A pool together with the memory, and a user that registers cleanups and writes into what it has
been given. The cleanup nodes lie in the blocks, as small ranges do. `ngx_resent_pool` makes the
blocks empty and leaves `pool->cleanup` as it is.

## Main definitions

- `Session` — the pool, the memory, and what the user has been given and has registered
- `runHandlers` — the loop of `ngx_destory_pool` over the cleanups
- `KeepsCleanups` — no reset takes place while a cleanup is registered

## Main results

- `cleanups_survive` — then every handler is called with its data
-/

namespace CppInOne.Pool
open Function Transition ByteMemory

/-- A node of the pool, with the handler and the data that the user has set. -/
structure Registration where
  node : UInt64
  handler : UInt64
  data : UInt64
  deriving DecidableEq, Repr

def Registration.range (c : Registration) : Range := ⟨c.node, sizeof_ngx_pool_cleanup_s⟩

structure Session where
  pool : State
  mem : Memory
  /-- What the user has been given and may write to. -/
  held : List Range
  /-- The latest one comes first. -/
  registered : List Registration

def Range.contains (r : Range) (b : Nat) : Bool := r.addr.toNat ≤ b ∧ b < r.stop

/-! ## What a call writes -/

def inHeader (s : State) (b : Nat) : Bool :=
  (List.range 64).any fun k =>
    k ≤ b ∧ (s.data (.ofNat (b - k))).isSome ∧ k < headerSize s (.ofNat (b - k))

/-- The bytes that a call may write: the headers, the nodes of the large regions, and the ranges
that it takes from the blocks. -/
def written (s s' : State) (b : Nat) : Bool :=
  inHeader s' b ∨
    (s.large ++ s'.large).any (fun l => Range.contains ⟨l.node, sizeof_ngx_pool_large_s⟩ b) ∨
    (s'.allocs.take (s'.allocs.length - s.allocs.length)).any (·.contains b)

/-- The pointer `pool->cleanup`. -/
def firstCleanup (s : State) : UInt64 :=
  match s.cleanup with
  | [] => 0
  | c :: _ => c.node

/-- The fields of a node. -/
def storeCleanup (mem : Memory) (c : Registration) (next : UInt64) : Memory :=
  storeWord (storeWord (storeWord mem c.node.toNat c.handler) (c.node.toNat + 8) c.data)
    (c.node.toNat + 16) next

/-! ## The user -/

inductive Action where
  /-- A call other than `ngx_pool_cleanup_add`, which leaves this in what it writes. -/
  | call (r : Request) (fill : Memory)
  /-- `ngx_pool_cleanup_add`, after which the user sets the handler and the data. -/
  | cleanupAdd (size : UInt64) (env env' : Env) (handler data : UInt64) (fill : Memory)
  /-- The user writes into what it holds. -/
  | write (fill : Memory)

/-- What the user holds after a call that returns `m`. -/
def holds (s : State) (held : List Range) (m : UInt64) : Request → List Range
  | .palloc n _ | .pnalloc n _ | .pcalloc n _ => if m = 0 then held else ⟨m, n⟩ :: held
  | .pfree p => if p ∈ allocated s.large then held.filter (·.addr ≠ p) else held
  | .resentPool _ => []
  | .cleanupAdd _ _ _ => held

/-- The range for the data of the cleanup that has been added last. -/
def holdsData (s : State) (held : List Range) (n : UInt64) : List Range :=
  match s.cleanup with
  | [] => held
  | c :: _ => if n = 0 then held else ⟨c.data, n⟩ :: held

def Session.step (x : Session) : Action → Option Session
  | .call (.cleanupAdd _ _ _) _ => none
  | .call r fill =>
    match Pool.call x.pool r with
    | none => none
    | some (s, m) => some {
        pool := s
        mem := overlay (written x.pool s) fill x.mem
        held := holds x.pool x.held m r
        registered := x.registered }
  | .cleanupAdd n env env' handler data fill =>
    match x.pool.ngx_pool_cleanup_add n env env' with
    | none => none
    | some (s, c) =>
      let mem := overlay (written x.pool s) fill x.mem
      if c = 0 then some { x with pool := s, mem }
      else some {
        pool := s
        mem := storeCleanup mem ⟨c, handler, data⟩ (firstCleanup x.pool)
        held := holdsData s x.held n
        registered := ⟨c, handler, data⟩ :: x.registered }
  | .write fill => some { x with mem := overlay (fun b => x.held.any (·.contains b)) fill x.mem }

/-- The user of a new pool. -/
def Session.start (size base : UInt64) (mem : Memory) : Session where
  pool := ngx_create_pool size base
  mem := mem
  held := []
  registered := []

/-- The first loop of `ngx_destory_pool` from the node `c` on: the calls of the handlers, each of
which may change the memory. -/
def runHandlers (effect : UInt64 → UInt64 → Memory → Memory) :
    Nat → Memory → UInt64 → Option (List (UInt64 × UInt64))
  | 0, _, _ => none
  | rounds + 1, mem, c =>
    if c = 0 then some []
    else
      let handler := loadWord mem c.toNat
      let data := loadWord mem (c.toNat + 8)
      if handler = 0 then runHandlers effect rounds mem (loadWord mem (c.toNat + 16))
      else
        let mem := effect handler data mem
        (runHandlers effect rounds mem (loadWord mem (c.toNat + 16))).map ((handler, data) :: ·)

/-- The calls that the user expects. -/
def calls (registered : List Registration) : List (UInt64 × UInt64) :=
  (registered.filter (·.handler ≠ 0)).map fun c => (c.handler, c.data)

/-- Memory is allocated only while every cleanup has been registered since the last reset. -/
def KeepsCleanups (x : Session) : Action → Prop
  | .call (.pfree _) _ | .call (.resentPool _) _ | .write _ => True
  | .call _ _ | .cleanupAdd _ _ _ _ _ _ => ∀ c ∈ x.registered, c.range ∈ x.pool.allocs

instance (x : Session) : DecidablePred (KeepsCleanups x)
  | .call (.pfree _) _ | .call (.resentPool _) _ | .write _ => inferInstanceAs (Decidable True)
  | .call (.palloc _ _) _ | .call (.pnalloc _ _) _ | .call (.pcalloc _ _) _
  | .call (.cleanupAdd _ _ _) _ | .cleanupAdd _ _ _ _ _ _ =>
    inferInstanceAs (Decidable (∀ c ∈ x.registered, c.range ∈ x.pool.allocs))

/-! ## The chain in memory -/

def firstNode : List Registration → UInt64
  | [] => 0
  | c :: _ => c.node

/-- The memory has the fields of these nodes, each with a pointer to the next one. -/
def Stored (mem : Memory) : List Registration → Prop
  | [] => True
  | c :: rest => c.node ≠ 0 ∧ loadWord mem c.node.toNat = c.handler ∧
      loadWord mem (c.node.toNat + 8) = c.data ∧
      loadWord mem (c.node.toNat + 16) = firstNode rest ∧ Stored mem rest

variable {size base n m p : UInt64} {x x' : Session} {s s' : State} {mem mem' : Memory}
  {new : List Range} {registered : List Registration} {c : Registration} {env env' : Env}

theorem contains_range {b : Nat} : c.range.contains b = true ↔
    c.node.toNat ≤ b ∧ b < c.node.toNat + 24 := by
  rw [Range.contains, decide_eq_true_iff]
  exact Iff.rfl

theorem Range.Disjoint.not_contains {r r' : Range} (h : r.Disjoint r') {b : Nat}
    (hb : r.contains b = true) : r'.contains b = false := by
  simp only [Range.contains, decide_eq_true_eq, decide_eq_false_iff_not] at hb ⊢
  unfold Range.Disjoint at h
  omega

theorem Stored.congr (h : Stored mem registered)
    (hsame : ∀ c ∈ registered, ∀ b, c.range.contains b = true → mem' b = mem b) :
    Stored mem' registered := by
  induction registered with
  | nil => trivial
  | cons c rest ih =>
    obtain ⟨hne, hhandler, hdata, hnext, hrest⟩ := h
    have hword : ∀ k ≤ 16, loadWord mem' (c.node.toNat + k) = loadWord mem (c.node.toNat + k) := by
      intro k hk
      refine loadWord_congr fun b hfrom hto => hsame c List.mem_cons_self b ?_
      rw [contains_range]
      omega
    refine ⟨hne, (hword 0 (by decide)).trans hhandler, (hword 8 (by decide)).trans hdata,
      (hword 16 (by decide)).trans hnext, ih hrest fun c' hc' => ?_⟩
    exact hsame c' (List.mem_cons_of_mem c hc')

/-- A new node is linked before the others. -/
theorem Stored.link (h : Stored mem registered) (hne : c.node ≠ 0)
    (hapart : ∀ c' ∈ registered, c'.range.Disjoint c.range) :
    Stored (storeCleanup mem c (firstNode registered)) (c :: registered) := by
  have hself : loadWord (storeCleanup mem c (firstNode registered)) (c.node.toNat + 16) =
      firstNode registered := loadWord_storeWord_self _ _ _
  have hdata : loadWord (storeCleanup mem c (firstNode registered)) (c.node.toNat + 8) = c.data :=
    (loadWord_storeWord_of_outside (by omega)).trans (loadWord_storeWord_self _ _ _)
  have hhandler : loadWord (storeCleanup mem c (firstNode registered)) c.node.toNat = c.handler :=
    (loadWord_storeWord_of_outside (by omega)).trans
      ((loadWord_storeWord_of_outside (by omega)).trans (loadWord_storeWord_self _ _ _))
  refine ⟨hne, hhandler, hdata, hself, h.congr fun c' hc' b hb => ?_⟩
  have hout := (hapart c' hc').not_contains hb
  have hb' : ¬ (c.node.toNat ≤ b ∧ b < c.node.toNat + 24) := by
    rw [← contains_range, hout]
    decide
  rw [storeCleanup, storeWord_of_outside (by omega), storeWord_of_outside (by omega),
    storeWord_of_outside (by omega)]

/-- The loop comes to every node, whatever the handlers do to other memory. -/
theorem runHandlers_eq {effect : UInt64 → UInt64 → Memory → Memory} {rounds : Nat}
    (h : Stored mem registered)
    (heffect : ∀ handler data mem, ∀ c ∈ registered, ∀ b, c.range.contains b = true →
      effect handler data mem b = mem b)
    (hrounds : registered.length < rounds) :
    runHandlers effect rounds mem (firstNode registered) = some (calls registered) := by
  induction registered generalizing mem rounds with
  | nil =>
    obtain ⟨k, rfl⟩ := Nat.exists_eq_succ_of_ne_zero (Nat.ne_zero_of_lt hrounds)
    simp [runHandlers, firstNode, calls]
  | cons c rest ih =>
    obtain ⟨k, rfl⟩ := Nat.exists_eq_succ_of_ne_zero (Nat.ne_zero_of_lt hrounds)
    obtain ⟨hne, hhandler, hdata, hnext, hrest⟩ := h
    have hlater := fun handler data mem c' hc' =>
      heffect handler data mem c' (List.mem_cons_of_mem c hc')
    have hk : rest.length < k := Nat.lt_of_succ_lt_succ hrounds
    simp only [runHandlers, firstNode, if_neg hne, hhandler, hdata]
    by_cases hzero : c.handler = 0
    · rw [if_pos hzero, hnext, ih hrest hlater hk]
      simp [calls, hzero]
    · -- the handler leaves this node and the later ones
      have hpointer : loadWord (effect c.handler c.data mem) (c.node.toNat + 16) =
          firstNode rest := by
        refine (loadWord_congr fun b hfrom hto => ?_).trans hnext
        refine heffect _ _ _ c List.mem_cons_self b (contains_range.mpr ?_)
        omega
      have hstored : Stored (effect c.handler c.data mem) rest :=
        hrest.congr fun c' hc' b hb => hlater _ _ _ c' hc' b hb
      rw [if_neg hzero, hpointer, ih hstored hlater hk]
      simp [calls, hzero]

/-! ## What a call leaves alone -/

theorem Layout.not_inHeader (h : Layout size s) (hc : InBlock size s c.range) {b : Nat}
    (hb : c.range.contains b = true) : inHeader s b = false := by
  obtain ⟨before, after, hwell⟩ := h.wellFormed
  obtain ⟨a, d, hd, hrange⟩ := hc
  have hstop : c.node.toNat + 24 ≤ a.toNat + size.toNat := hrange.2
  have hlt : a.toNat + size.toNat < 2 ^ 64 := (hwell.blockAt hd).end_ ▸ d.end_.toNat_lt
  obtain ⟨hfrom, hto⟩ := contains_range.mp hb
  rw [Bool.eq_false_iff]
  intro hin
  obtain ⟨k, -, hk⟩ := List.any_eq_true.mp hin
  obtain ⟨hle, hsome, hheader⟩ := decide_eq_true_eq.mp hk
  obtain ⟨e, he⟩ := Option.isSome_iff_exists.mp hsome
  have haddr : (UInt64.ofNat (b - k)).toNat = b - k := by
    rw [UInt64.toNat_ofNat']
    omega
  have houtside : _ ∨ c.node.toNat + 24 ≤ _ := h.header ⟨a, d, hd, hrange⟩ he
  have hnode : c.range.addr.toNat = c.node.toNat := rfl
  omega

/-- A call does not write to a node that was there before. -/
theorem Layout.not_written (h : Layout size s') (hc : InBlock size s' c.range)
    (hnodes : ∀ l ∈ s.large ++ s'.large, c.range.Disjoint ⟨l.node, sizeof_ngx_pool_large_s⟩)
    (hnew : ∀ r ∈ s'.allocs.take (s'.allocs.length - s.allocs.length), c.range.Disjoint r)
    {b : Nat} (hb : c.range.contains b = true) : written s s' b = false := by
  have hheader := h.not_inHeader hc hb
  rw [written, decide_eq_false_iff_not, hheader]
  rintro (hin | hin | hin)
  · cases hin
  · obtain ⟨l, hl, hlb⟩ := List.any_eq_true.mp hin
    rw [(hnodes l hl).not_contains hb] at hlb
    cases hlb
  · obtain ⟨r, hr, hrb⟩ := List.any_eq_true.mp hin
    rw [(hnew r hr).not_contains hb] at hrb
    cases hrb

/-- A large region that is in use is not a block. -/
theorem Layout.data_eq_none (h : Layout size s) {a : UInt64} (ha : a ∈ allocated s.large) :
    s.data a = none := by
  obtain ⟨before, after, hwell⟩ := h.wellFormed
  obtain ⟨l, hl, rfl, hne⟩ := mem_allocated.mp ha
  rw [Option.eq_none_iff_forall_ne_some]
  exact fun d hd => (hwell.large l hl hne).1 (hwell.domain _ d hd)

/-! ## The invariant -/

/-- Where a range that the user holds may be. -/
def Given (s : State) (r : Range) : Prop :=
  r ∈ s.allocs ∨ r ∈ s.regions ∧ r.addr ∈ allocated s.large

/-- The nodes of the cleanups lie in the blocks, nothing that is in use overlaps one, and the
memory has the chain. -/
structure Intact (size : UInt64) (x : Session) : Prop where
  layout : Layout size x.pool
  nodes : x.registered.map (·.node) = x.pool.cleanup.map (·.node)
  inBlock : ∀ c ∈ x.registered, InBlock size x.pool c.range
  large : ∀ l ∈ x.pool.large, ⟨l.node, sizeof_ngx_pool_large_s⟩ ∈ x.pool.allocs
  given : ∀ r ∈ x.held, Given x.pool r
  apart : ∀ c ∈ x.registered, ∀ r ∈ x.held, c.range.Disjoint r
  apart_large : ∀ c ∈ x.registered, ∀ l ∈ x.pool.large,
    c.range.Disjoint ⟨l.node, sizeof_ngx_pool_large_s⟩
  stored : Stored x.mem x.registered

theorem Intact.first (h : Intact size x) : firstCleanup x.pool = firstNode x.registered := by
  have hnodes := h.nodes
  unfold firstCleanup firstNode
  cases hr : x.registered <;> cases hc : x.pool.cleanup <;> simp_all

/-- The pool grows while all nodes belong to what has been handed out since the last reset. -/
theorem Intact.grow (h : Intact size x) (hkeep : ∀ c ∈ x.registered, c.range ∈ x.pool.allocs)
    (hgrows : Grows x.pool s new) (hlayout : Layout size s) (fill : Memory) :
    Intact size { x with pool := s, mem := overlay (written x.pool s) fill x.mem } := by
  have hlarge : ∀ l ∈ s.large, ⟨l.node, sizeof_ngx_pool_large_s⟩ ∈ s.allocs := by
    intro l hl
    obtain hnew | ⟨l', hl', hnode⟩ := hgrows.nodes l hl
    · exact hgrows.mem_of_new hnew
    · rw [← hnode]
      exact hgrows.mem_of_old (h.large l' hl')
  have hapart : ∀ c ∈ x.registered, ∀ l ∈ s.large,
      c.range.Disjoint ⟨l.node, sizeof_ngx_pool_large_s⟩ := by
    intro c hc l hl
    obtain hnew | ⟨l', hl', hnode⟩ := hgrows.nodes l hl
    · exact hgrows.apart _ hnew _ (hkeep c hc)
    · rw [← hnode]
      exact h.apart_large c hc l' hl'
  have hin : ∀ c ∈ x.registered, InBlock size s c.range :=
    fun c hc => hgrows.inBlock (h.inBlock c hc)
  have htake : s.allocs.take (s.allocs.length - x.pool.allocs.length) = new := by
    rw [hgrows.allocs, List.length_append, Nat.add_sub_cancel, List.take_left]
  refine ⟨hlayout, hgrows.cleanup ▸ h.nodes, hin, hlarge, fun r hr => ?_, h.apart, hapart,
    h.stored.congr fun c hc b hb => overlay_of_not ?_⟩
  · obtain hsmall | ⟨hregion, haddr⟩ := h.given r hr
    · exact Or.inl (hgrows.mem_of_old hsmall)
    · exact Or.inr ⟨hgrows.regions r hregion, hgrows.live _ haddr⟩
  · refine hlayout.not_written (hin c hc) (fun l hl => ?_) (fun r hr => ?_) hb
    · obtain hl | hl := List.mem_append.mp hl
      · exact h.apart_large c hc l hl
      · exact hapart c hc l hl
    · rw [htake] at hr
      exact hgrows.apart r hr _ (hkeep c hc)

/-- The user gets a range. -/
theorem Intact.hold (h : Intact size x) {r : Range}
    (hr : (r ∈ x.pool.allocs ∧ ∀ c ∈ x.registered, c.range.Disjoint r) ∨
      r ∈ x.pool.regions ∧ r.addr ∈ allocated x.pool.large) :
    Intact size { x with held := r :: x.held } := by
  refine ⟨h.layout, h.nodes, h.inBlock, h.large,
    List.forall_mem_cons.mpr ⟨hr.imp_left And.left, h.given⟩, fun c hc => ?_, h.apart_large,
    h.stored⟩
  refine List.forall_mem_cons.mpr ⟨?_, h.apart c hc⟩
  obtain ⟨-, hapart⟩ | ⟨hin, haddr⟩ := hr
  · exact hapart c hc
  · exact h.layout.region (h.inBlock c hc) hin (h.layout.data_eq_none haddr)

/-- A node is linked. -/
theorem Intact.link (h : Intact size x) (hne : c.node ≠ 0) (hc : InBlock size x.pool c.range)
    (hnodes : ∀ c' ∈ x.registered, c'.range.Disjoint c.range)
    (hheld : ∀ r ∈ x.held, c.range.Disjoint r)
    (hlarge : ∀ l ∈ x.pool.large, c.range.Disjoint ⟨l.node, sizeof_ngx_pool_large_s⟩)
    (data : UInt64) :
    Intact size
      { pool := { x.pool with cleanup := ⟨c.node, data⟩ :: x.pool.cleanup }
        mem := storeCleanup x.mem c (firstCleanup x.pool)
        held := x.held
        registered := c :: x.registered } := by
  refine ⟨h.layout.setCleanup _, ?_, List.forall_mem_cons.mpr ⟨hc, h.inBlock⟩, h.large, h.given,
    List.forall_mem_cons.mpr ⟨hheld, h.apart⟩, List.forall_mem_cons.mpr ⟨hlarge, h.apart_large⟩,
    ?_⟩
  · rw [List.map_cons, List.map_cons, h.nodes]
  · rw [h.first]
    exact h.stored.link hne hnodes

/-! ## Every action -/

theorem Session.step_call {r : Request} {fill : Memory}
    (hs : x.step (.call r fill) = some x') :
    (∀ n env env', r ≠ .cleanupAdd n env env') ∧ ∃ s m, Pool.call x.pool r = some (s, m) ∧
      x' = ⟨s, overlay (written x.pool s) fill x.mem, holds x.pool x.held m r, x.registered⟩ := by
  cases r with
  | cleanupAdd => cases hs
  | palloc | pnalloc | pcalloc | pfree | resentPool =>
    refine ⟨by simp, ?_⟩
    simp only [Session.step] at hs
    split at hs
    · cases hs
    · rename_i s m hcall
      cases hs
      exact ⟨s, m, hcall, rfl⟩

/-- A request for memory. -/
theorem Intact.allocate (h : Intact size x) (hkeep : ∀ c ∈ x.registered, c.range ∈ x.pool.allocs)
    (align : Bool) {fill : Memory}
    (hs : (if n ≤ x.pool.max then x.pool.ngx_palloc_small n align env
      else x.pool.ngx_palloc_large n env) = some (s, m)) (hfine : Fine s) :
    Intact size ⟨s, overlay (written x.pool s) fill x.mem,
      if m = 0 then x.held else ⟨m, n⟩ :: x.held, x.registered⟩ := by
  obtain ⟨new, hlayout, hgrows, hgiven⟩ := h.layout.allocate align hs hfine
  have hgrown := h.grow hkeep hgrows hlayout fill
  split
  · exact hgrown
  · rename_i hne
    have hin := hgiven hne
    refine hgrown.hold ?_
    split at hin
    · exact Or.inl ⟨hgrows.mem_of_new hin, fun c hc => hgrows.apart _ hin _ (hkeep c hc)⟩
    · exact Or.inr hin

theorem Intact.pfree (h : Intact size x) {fill : Memory} (hs : x.pool.ngx_pfree p = some s) :
    Intact size ⟨s, overlay (written x.pool s) fill x.mem,
      if p ∈ allocated x.pool.large then x.held.filter (·.addr ≠ p) else x.held,
      x.registered⟩ := by
  obtain ⟨hlayout, hfrees⟩ := h.layout.ngx_pfree hs
  have hheld : ∀ r ∈ (if p ∈ allocated x.pool.large then x.held.filter (·.addr ≠ p) else x.held),
      r ∈ x.held ∧ (p ∉ allocated x.pool.large ∨ r.addr ≠ p) := by
    intro r hr
    split at hr
    · obtain ⟨hin, hne⟩ := List.mem_filter.mp hr
      exact ⟨hin, Or.inr (by simpa using hne)⟩
    · rename_i hp
      exact ⟨hr, Or.inl hp⟩
  have hin : ∀ c ∈ x.registered, InBlock size s c.range :=
    fun c hc => hfrees.inBlock (h.inBlock c hc)
  have hapart : ∀ c ∈ x.registered, ∀ l ∈ s.large,
      c.range.Disjoint ⟨l.node, sizeof_ngx_pool_large_s⟩ := by
    intro c hc l hl
    obtain ⟨l', hl', hnode⟩ := hfrees.nodes l hl
    rw [← hnode]
    exact h.apart_large c hc l' hl'
  refine ⟨hlayout, hfrees.cleanup ▸ h.nodes, hin, fun l hl => ?_, fun r hr => ?_,
    fun c hc r hr => h.apart c hc r (hheld r hr).1, hapart,
    h.stored.congr fun c hc b hb => overlay_of_not ?_⟩
  · obtain ⟨l', hl', hnode⟩ := hfrees.nodes l hl
    show _ ∈ s.allocs
    rw [hfrees.allocs, ← hnode]
    exact h.large l' hl'
  · obtain ⟨hmem, hor⟩ := hheld r hr
    obtain hsmall | ⟨hregion, haddr⟩ := h.given r hmem
    · exact Or.inl (hfrees.allocs ▸ hsmall)
    · refine Or.inr ⟨hfrees.regions r hregion hor, hfrees.live _ haddr ?_⟩
      rintro rfl
      exact hor.elim (fun hnot => hnot haddr) fun hne => hne rfl
  · refine hlayout.not_written (hin c hc) (fun l hl => ?_) ?_ hb
    · obtain hl | hl := List.mem_append.mp hl
      · exact h.apart_large c hc l hl
      · exact hapart c hc l hl
    · rw [hfrees.allocs, Nat.sub_self]
      simp

/-- A reset leaves the chain in memory as it is. -/
theorem Intact.reset (h : Intact size x) {fill : Memory} {rounds : Nat}
    (hs : x.pool.ngx_resent_pool rounds = some s) :
    Intact size ⟨s, overlay (written x.pool s) fill x.mem, [], x.registered⟩ := by
  obtain ⟨hlayout, hcleanup, hlarge, hallocs, hblocks⟩ := h.layout.resent_pool hs
  refine ⟨hlayout, hcleanup ▸ h.nodes, fun c hc => hblocks _ (h.inBlock c hc), by simp [hlarge],
    by simp, by simp, by simp [hlarge], h.stored.congr fun c hc b hb => overlay_of_not ?_⟩
  refine hlayout.not_written (hblocks _ (h.inBlock c hc)) (fun l hl => ?_) ?_ hb
  · rw [hlarge, List.append_nil] at hl
    exact h.apart_large c hc l hl
  · rw [hallocs]
    simp

/-- The user does not write to a node. -/
theorem Intact.write (h : Intact size x) (fill : Memory) :
    Intact size { x with mem := overlay (fun b => x.held.any (·.contains b)) fill x.mem } := by
  refine ⟨h.layout, h.nodes, h.inBlock, h.large, h.given, h.apart, h.apart_large,
    h.stored.congr fun c hc b hb => ?_⟩
  show overlay (fun b => x.held.any (·.contains b)) fill x.mem b = x.mem b
  apply overlay_of_not
  rw [List.any_eq_false]
  intro r hr
  rw [(h.apart c hc r hr).not_contains hb]
  decide

/-- A new node overlaps nothing that is older. -/
theorem Intact.apart_node (h : Intact size x)
    (hnode : Grows x.pool s [⟨m, sizeof_ngx_pool_cleanup_s⟩]) (hlayout : Layout size s) :
    (∀ r ∈ x.held, Range.Disjoint ⟨m, sizeof_ngx_pool_cleanup_s⟩ r) ∧
      ∀ l ∈ s.large,
        Range.Disjoint ⟨m, sizeof_ngx_pool_cleanup_s⟩ ⟨l.node, sizeof_ngx_pool_large_s⟩ := by
  have hnew := List.mem_singleton_self (⟨m, sizeof_ngx_pool_cleanup_s⟩ : Range)
  constructor
  · intro r hr
    obtain hin | ⟨hin, haddr⟩ := h.given r hr
    · exact (hnode.apart _ hnew r hin).symm
    · exact hlayout.region (hlayout.inBlock (hnode.placed _ hnew)) (hnode.regions r hin)
        (hlayout.data_eq_none (hnode.live _ haddr))
  · intro l hl
    obtain hlarge | ⟨l', hl', hsame⟩ := hnode.nodes l hl
    · -- the two kinds of nodes differ in their size
      have hsize : sizeof_ngx_pool_large_s = sizeof_ngx_pool_cleanup_s :=
        congrArg Range.size (List.mem_singleton.mp hlarge)
      exact absurd hsize (by decide)
    · rw [← hsame]
      exact (hnode.apart _ hnew _ (h.large l' hl')).symm

/-- A cleanup is registered. -/
theorem Intact.register (h : Intact size x) (hkeep : ∀ c ∈ x.registered, c.range ∈ x.pool.allocs)
    {data handler datum : UInt64} {fill : Memory} (hs : Linked size x.pool s n m data) :
    Intact size ⟨s, storeCleanup (overlay (written x.pool s) fill x.mem) ⟨m, handler, datum⟩
      (firstCleanup x.pool), holdsData s x.held n, ⟨m, handler, datum⟩ :: x.registered⟩ := by
  obtain ⟨hlayout, hne, hcleanup, t, hnode, ht, new, hrest, hdata⟩ := hs
  generalize hu : ({ s with cleanup := x.pool.cleanup } : State) = u at hrest
  have hpool : ({ u with cleanup := ⟨m, data⟩ :: u.cleanup } : State) = s := by
    rw [← hu, ← hcleanup]
  have hlayout' : Layout size u := hu ▸ hlayout.setCleanup _
  have hwritten : written x.pool s = written x.pool u := by rw [← hu]; rfl
  have hfirst : firstCleanup x.pool = firstCleanup u := by rw [← hu]; rfl
  have hmem := hnode.mem_of_new (List.mem_singleton_self _)
  obtain ⟨hheld, hnodes⟩ := h.apart_node hnode ht
  have hlarge : ∀ l ∈ u.large, Range.Disjoint ⟨m, sizeof_ngx_pool_cleanup_s⟩
      ⟨l.node, sizeof_ngx_pool_large_s⟩ := by
    intro l hl
    obtain hnew | ⟨l', hl', hsame⟩ := hrest.nodes l hl
    · exact hrest.apart _ hnew _ hmem
    · exact hsame ▸ hnodes l' hl'
  have hlinked := (h.grow hkeep (hnode.trans hrest) hlayout' fill).link (c := ⟨m, handler, datum⟩)
    hne (hrest.inBlock (ht.inBlock (ht.placed _ hmem)))
    (fun c hc => hnode.apart _ (List.mem_singleton_self _) _ (hkeep c hc)) hheld hlarge data
  have hafter : Intact size ⟨s, storeCleanup (overlay (written x.pool u) fill x.mem)
      ⟨m, handler, datum⟩ (firstCleanup u), x.held, ⟨m, handler, datum⟩ :: x.registered⟩ :=
    hpool ▸ hlinked
  have hholds : holdsData s x.held n = if n = 0 then x.held else ⟨data, n⟩ :: x.held := by
    rw [holdsData, hcleanup]
  rw [hwritten, hfirst, hholds]
  split
  · exact hafter
  · -- the range for the data is newer than all nodes
    rename_i hn
    have hin := hdata hn
    refine hafter.hold ?_
    split at hin
    · refine Or.inl ⟨?_, List.forall_mem_cons.mpr ⟨hrest.apart _ hin _ hmem, fun c hc => ?_⟩⟩
      · have hallocs : u.allocs = s.allocs := by rw [← hu]
        exact hallocs ▸ hrest.mem_of_new hin
      · exact hrest.apart _ hin _ (hnode.mem_of_old (hkeep c hc))
    · exact Or.inr hin

/-- **Step lemma**: every action that is fine and keeps the cleanups keeps the invariant. -/
theorem Intact.step {a : Action} (h : Fine x.pool → Intact size x) (ha : KeepsCleanups x a)
    (hs : x.step a = some x') (hfine : Fine x'.pool) : Intact size x' := by
  cases a with
  | call r fill =>
    obtain ⟨hr, s, m, hcall, rfl⟩ := Session.step_call hs
    have h := h (fine_of_call hcall hfine)
    cases r with
    | palloc n env | pcalloc n env => exact h.allocate ha true hcall hfine
    | pnalloc n env => exact h.allocate ha false hcall hfine
    | pfree p =>
      obtain ⟨t, hfree, heq⟩ := Option.map_eq_some_iff.mp hcall
      cases heq
      exact h.pfree hfree
    | resentPool rounds =>
      obtain ⟨t, hreset, heq⟩ := Option.map_eq_some_iff.mp hcall
      cases heq
      exact h.reset hreset
    | cleanupAdd n env env' => exact absurd rfl (hr n env env')
  | cleanupAdd n env env' handler datum fill =>
    simp only [Session.step] at hs
    split at hs
    · cases hs
    rename_i s m hadd
    have hfineBefore : ∀ hs' : Fine s, Intact size x := fun hs' =>
      h (fine_of_call (r := .cleanupAdd n env env') hadd hs')
    split at hs
    · rename_i hm
      cases hs
      have h := hfineBefore hfine
      -- null comes back: nothing has been linked, and at most a block has grown
      obtain ⟨-, new, hlayout, hgrows⟩ | ⟨data, hlinked⟩ := h.layout.cleanup_add hadd hfine
      · exact h.grow ha hgrows hlayout fill
      · exact absurd hm hlinked.ne
    · rename_i hm
      cases hs
      have h := hfineBefore hfine
      obtain ⟨hzero, -⟩ | ⟨data, hlinked⟩ := h.layout.cleanup_add hadd hfine
      · exact absurd hzero hm
      · exact h.register ha hlinked
  | write fill =>
    cases hs
    exact (h hfine).write fill

theorem intact_start (mem : Memory) (hsize : NGX_MIN_POOL_SIZE ≤ size)
    (hbase : Fresh [] ⟨base, size⟩) : Intact size (Session.start size base mem) :=
  ⟨layout_create hsize hbase, rfl, by simp [Session.start],
    by simp [Session.start, ngx_create_pool], by simp [Session.start], by simp [Session.start],
    by simp [Session.start], trivial⟩

/-- **Cleanups survive until the pool is destroyed if nothing is allocated after a reset that came
behind a registration**, in every session of a pool that has been fine. Nothing that the user holds
overlaps a node, and `ngx_destory_pool` calls the handlers with their data, the latest first,
whatever a handler itself writes into what the user holds. -/
theorem cleanups_survive {mem : Memory} {as : List Action} (hsize : NGX_MIN_POOL_SIZE ≤ size)
    (hbase : Fresh [] ⟨base, size⟩)
    (hrun : run Session.step (Session.start size base mem) as = some x)
    (hkeep : Guarded Session.step KeepsCleanups (Session.start size base mem) as)
    (hfine : Fine x.pool) :
    (∀ c ∈ x.registered, ∀ r ∈ x.held, c.range.Disjoint r) ∧
    ∀ effect rounds, x.registered.length < rounds →
      (∀ handler data mem b, (∀ r ∈ x.held, r.contains b = false) →
        effect handler data mem b = mem b) →
      runHandlers effect rounds x.mem (firstCleanup x.pool) = some (calls x.registered) := by
  have hinv := run_invariant (I := fun x => Fine x.pool → Intact size x)
    (fun _ _ _ h ha hs hfine => Intact.step h ha hs hfine)
    (fun _ => intact_start mem hsize hbase) hkeep hrun
  have h := hinv hfine
  refine ⟨h.apart, fun effect rounds hrounds heffect => ?_⟩
  rw [h.first]
  refine runHandlers_eq h.stored (fun handler data mem c hc b hb => ?_) hrounds
  exact heffect handler data mem b fun r hr => (h.apart c hc r hr).not_contains hb

def zeros : Memory := fun _ => 0

/-- Two cleanups, one of them with eight bytes for its data, and a range that the user fills; at
last a reset. -/
def orderly : List Action :=
  [.cleanupAdd 8 ⟨0, 0, 0, 1⟩ ⟨0, 0, 0, 1⟩ 11 22 zeros, .call (.pcalloc 16 ⟨0, 0, 0, 1⟩) zeros,
    .cleanupAdd 0 ⟨0, 0, 0, 1⟩ ⟨0, 0, 0, 1⟩ 33 44 zeros, .write fun _ => 255,
    .call (.resentPool 1) zeros]

theorem cleanups_survive_orderly : ∃ x,
    run Session.step (Session.start 512 4096 zeros) orderly = some x ∧
      runHandlers (fun _ _ mem => mem) 3 x.mem (firstCleanup x.pool) =
        some [(33, 44), (11, 22)] := by
  have hrun : run Session.step (Session.start 512 4096 zeros) orderly = some _ := rfl
  exact ⟨_, hrun, (cleanups_survive (by decide) (by decide) hrun (by decide) (by decide)).2 _ 3
    (by decide) fun _ _ _ _ _ => rfl⟩

/-- After the reset the node is handed out to the user, who clears it. -/
def cleared : List Action :=
  [.cleanupAdd 0 ⟨0, 0, 0, 1⟩ ⟨0, 0, 0, 1⟩ 11 22 zeros, .call (.resentPool 1) zeros,
    .call (.palloc 24 ⟨0, 0, 0, 1⟩) zeros, .write zeros]

theorem cleared_not_called : ∃ x,
    run Session.step (Session.start 512 4096 zeros) cleared = some x ∧ Fine x.pool ∧
      x.registered = [⟨4160, 11, 22⟩] ∧ x.held = [⟨4160, 24⟩] ∧
      (¬ ∀ c ∈ x.registered, ∀ r ∈ x.held, c.range.Disjoint r) ∧
      calls x.registered = [(11, 22)] ∧
      runHandlers (fun _ _ mem => mem) 2 x.mem (firstCleanup x.pool) = some [] :=
  ⟨_, rfl, by decide, rfl, rfl, by decide, rfl, rfl⟩

end CppInOne.Pool
