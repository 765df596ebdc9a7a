import Mathlib.Logic.Function.Basic
import CppInOne.Lib.Alignment
import CppInOne.Lib.Chain

/-!
# The memory pool `ngx_mem_pool`

The pool in a 64-bit address space where `long` has eight bytes. Of the memory the headers of
the blocks are modelled, and which ranges `malloc` and the pool have handed out; an access
outside a header is undefined. A function returns `none` where the program is undefined,
where `malloc` would have to return what it cannot, or where a loop is not done in the given
number of rounds. The null pointer is 0.

## Main definitions

- `State` — the pool, its blocks, and the memory that is in use
- `ngx_palloc_small`, `ngx_palloc_block`, `ngx_palloc_large` — the allocation functions
- `call`, `step` — the calls of a user
-/

namespace CppInOne.Pool
open Function Alignment

/-! ## Memory -/

structure Range where
  addr : UInt64
  size : UInt64
  deriving DecidableEq, Repr

/-- The address behind the range. -/
def Range.stop (r : Range) : Nat := r.addr.toNat + r.size.toNat

def Range.Disjoint (r r' : Range) : Prop := r.stop ≤ r'.addr.toNat ∨ r'.stop ≤ r.addr.toNat

instance (r r' : Range) : Decidable (r.Disjoint r') := inferInstanceAs (Decidable (_ ∨ _))

/-- `malloc` may return this range while those are in use. -/
def Fresh (regions : List Range) (r : Range) : Prop :=
  r.addr ≠ 0 ∧ r.addr.toNat % 16 = 0 ∧ r.stop < 2 ^ 64 ∧ ∀ r' ∈ regions, r.Disjoint r'

instance (regions : List Range) (r : Range) : Decidable (Fresh regions r) :=
  inferInstanceAs (Decidable (_ ∧ _ ∧ _ ∧ _))

theorem toNat_add {a b : UInt64} (h : a.toNat + b.toNat < 2 ^ 64) :
    (a + b).toNat = a.toNat + b.toNat := BitVec.toNat_add_of_lt h

theorem toNat_pos_of_lt {a b : UInt64} (h : a < b) : 0 < b.toNat :=
  Nat.zero_lt_of_lt (UInt64.lt_iff_toNat_lt.mp h)

/-! ## The structures of the source -/

def NGX_ALIGNMENT : UInt64 := 8

def NGX_MAX_ALLOC_FROM_POOL : UInt64 := 4095

def NGX_POOL_ALIGNMENT : UInt64 := 16

def sizeof_ngx_pool_data_t : UInt64 := 32

def sizeof_ngx_pool_s : UInt64 := 64

def sizeof_ngx_pool_large_s : UInt64 := 16

def sizeof_ngx_pool_cleanup_s : UInt64 := 24

/-- The place behind the header of the first block. -/
theorem toNat_add_pool_s {p : UInt64} (h : p.toNat + 64 < 2 ^ 64) :
    (p + sizeof_ngx_pool_s).toNat = p.toNat + 64 := toNat_add h

/-- The place behind the header of another block. -/
theorem toNat_add_pool_data_t {p : UInt64} (h : p.toNat + 32 < 2 ^ 64) :
    (p + sizeof_ngx_pool_data_t).toNat = p.toNat + 32 := toNat_add h

def ngx_align (d a : UInt64) : UInt64 := (d + (a - 1)) &&& ~~~(a - 1)

def ngx_align_ptr (p a : UInt64) : UInt64 := (p + (a - 1)) &&& ~~~(a - 1)

def NGX_MIN_POOL_SIZE : UInt64 :=
  ngx_align (sizeof_ngx_pool_s + 2 * sizeof_ngx_pool_large_s) NGX_POOL_ALIGNMENT

theorem toNat_ngx_align_ptr {p : UInt64} (hp : p.toNat + 7 < 2 ^ 64) :
    (ngx_align_ptr p NGX_ALIGNMENT).toNat = roundUp 8 p.toNat :=
  toNat_mask (k := 3) p.toBitVec hp

theorem toNat_ngx_align_ptr_le (p : UInt64) :
    (ngx_align_ptr p NGX_ALIGNMENT).toNat ≤ (p + 7).toNat := Nat.and_le_left

/-- `ngx_pool_data_t` -/
structure PoolData where
  last : UInt64
  end_ : UInt64
  next : UInt64
  failed : UInt32
  deriving DecidableEq, Repr

/-- `ngx_pool_large_s`, and where it lies. -/
structure Large where
  node : UInt64
  alloc : UInt64
  deriving DecidableEq, Repr

/-- `ngx_pool_cleanup_s`, and where it lies; the handler is the user's. -/
structure Cleanup where
  node : UInt64
  data : UInt64
  deriving DecidableEq, Repr

inductive Event where
  /-- `ngx_palloc_small` returns `m` from a block with this free space. -/
  | served (last m end_ : UInt64)
  /-- `ngx_palloc_block` allocates a block at `m` while its pointer `p` has this value. -/
  | grown (p m : UInt64)
  deriving DecidableEq, Repr

structure State where
  pool : UInt64
  /-- The field `d` of the blocks. -/
  data : UInt64 → Option PoolData
  max : UInt64
  current : UInt64
  large : List Large
  cleanup : List Cleanup
  /-- What `malloc` has returned and nobody has freed. -/
  regions : List Range
  /-- What `ngx_palloc_small` has handed out since the last reset. -/
  allocs : List Range
  trace : List Event

/-- What is not decided by the pool during one allocation. -/
structure Env where
  /-- what `malloc` returns for a large region -/
  large : UInt64
  /-- what `malloc` returns for a new block -/
  block : UInt64
  /-- the pointer `p` of `ngx_palloc_block`, which is not initialised -/
  p : UInt64
  /-- a bound on the rounds of each loop -/
  rounds : Nat
  deriving DecidableEq, Repr

/-- The pool that `ngx_create_pool` makes of a region at `p`. -/
def ngx_create_pool (size p : UInt64) : State where
  pool := p
  data := update (fun _ => none) p
    (some { last := p + sizeof_ngx_pool_s, end_ := p + size, next := 0, failed := 0 })
  max :=
    if size - sizeof_ngx_pool_s < NGX_MAX_ALLOC_FROM_POOL then size - sizeof_ngx_pool_s
    else NGX_MAX_ALLOC_FROM_POOL
  current := p
  large := []
  cleanup := []
  regions := [⟨p, size⟩]
  allocs := []
  trace := []

section Create

variable {size base : UInt64}

/-- The header of a new pool, in a region that does not end behind the address space. -/
theorem create_first (hsize : sizeof_ngx_pool_s ≤ size) (hbase : Fresh [] ⟨base, size⟩) :
    ∃ d, (ngx_create_pool size base).data base = some d ∧ d.last.toNat = base.toNat + 64 ∧
      d.end_ = base + size ∧ d.end_.toNat = base.toNat + size.toNat ∧ d.next = 0 ∧
      d.failed = 0 := by
  have hle : (64 : Nat) ≤ size.toNat := UInt64.le_iff_toNat_le.mp hsize
  have hstop : base.toNat + size.toNat < 2 ^ 64 := hbase.2.2.1
  exact ⟨⟨base + sizeof_ngx_pool_s, base + size, 0, 0⟩, by simp [ngx_create_pool],
    toNat_add_pool_s (by omega), rfl, toNat_add hstop, rfl, rfl⟩

theorem create_max (hsize : NGX_MIN_POOL_SIZE ≤ size) :
    32 ≤ (ngx_create_pool size base).max.toNat ∧
      (ngx_create_pool size base).max.toNat + 64 ≤ size.toNat ∧
      (ngx_create_pool size base).max ≤ NGX_MAX_ALLOC_FROM_POOL := by
  have hmin : 96 ≤ size.toNat := UInt64.le_iff_toNat_le.mp hsize
  have hroom : (size - sizeof_ngx_pool_s).toNat = size.toNat - 64 := by
    apply UInt64.toNat_sub_of_le
    rw [UInt64.le_iff_toNat_le]
    show 64 ≤ size.toNat
    omega
  simp only [ngx_create_pool]
  split
  · rename_i hlt
    exact ⟨by omega, by omega, UInt64.le_of_lt hlt⟩
  · rename_i hle
    have hle : (4095 : Nat) ≤ (size - sizeof_ngx_pool_s).toNat :=
      UInt64.le_iff_toNat_le.mp (UInt64.not_lt.mp hle)
    refine ⟨by decide, ?_, UInt64.le_refl _⟩
    show 4095 + 64 ≤ size.toNat
    omega

end Create

namespace State

def setData (s : State) (p : UInt64) (d : PoolData) : State :=
  { s with data := update s.data p (some d) }

def malloc (s : State) (size result : UInt64) : Option State :=
  if result = 0 then some s
  else if Fresh s.regions ⟨result, size⟩ then
    some { s with regions := ⟨result, size⟩ :: s.regions }
  else none

def free (s : State) (p : UInt64) : Option State :=
  if p = 0 then some s
  else if s.regions.any (·.addr = p) then
    some { s with regions := s.regions.filter (·.addr ≠ p) }
  else none

/-! ## Allocation -/

/-- The place where `ngx_palloc_small` looks in a block. -/
def place (d : PoolData) (align : Bool) : UInt64 :=
  if align then ngx_align_ptr d.last NGX_ALIGNMENT else d.last

/-- `size` bytes at `m` are taken from the block `p`. -/
def handOut (s : State) (p : UInt64) (d : PoolData) (m size : UInt64) : State :=
  { s with
    data := update s.data p (some { d with last := m + size })
    allocs := ⟨m, size⟩ :: s.allocs
    trace := s.trace ++ [.served d.last m d.end_] }

/-- The loop of `ngx_palloc_small` from the block `p` on; there is no pointer where the function
goes on to `ngx_palloc_block`. -/
def search (s : State) (size : UInt64) (align : Bool) :
    Nat → UInt64 → Option (State × Option UInt64)
  | 0, _ => none
  | rounds + 1, p =>
    match s.data p with
    | none => none
    | some d =>
      let m := place d align
      if d.end_ - m ≥ size then some (s.handOut p d m size, some m)
      else if d.next = 0 then some (s, none)
      else s.search size align rounds d.next

/-- The body of the loop of `ngx_palloc_block`, at the block `p`. -/
def countFailure (s : State) (p : UInt64) (d : PoolData) : State :=
  { s with
    data := update s.data p (some { d with failed := d.failed + 1 })
    current := if d.failed > 4 then d.next else s.current }

/-- The loop of `ngx_palloc_block` from the block `p` on, with the block where it ends. -/
def countFailures (s : State) : Nat → UInt64 → Option (State × UInt64)
  | 0, _ => none
  | rounds + 1, p =>
    match s.data p with
    | none => none
    | some d =>
      if d.next = 0 then some (s, p) else (s.countFailure p d).countFailures rounds d.next

/-- The header fields of the block at `m` are written through `newpool`, which is `p`. -/
def writeNewpool (s : State) (m last end_ p : UInt64) : Option State :=
  if p = m ∨ (s.data p).isSome = true then
    some { s.setData p { last, end_, next := 0, failed := 0 } with
      trace := s.trace ++ [.grown p m] }
  else none

def ngx_palloc_block (s : State) (size : UInt64) (env : Env) : Option (State × UInt64) :=
  match s.data s.pool with
  | none => none
  | some first =>
    let psize := first.end_ - s.pool
    match s.malloc psize env.block with
    | none => none
    | some s =>
      if env.block = 0 then some (s, 0)
      else
        let m := ngx_align_ptr (env.block + sizeof_ngx_pool_data_t) NGX_ALIGNMENT
        match s.writeNewpool env.block (m + size) (env.block + psize) env.p with
        | none => none
        | some s =>
          match s.countFailures env.rounds s.current with
          | none => none
          | some (s, p) =>
            match s.data p with
            | none => none
            | some d =>
              some ({ s.setData p { d with next := env.p } with
                allocs := ⟨m, size⟩ :: s.allocs }, m)

def ngx_palloc_small (s : State) (size : UInt64) (align : Bool) (env : Env) :
    Option (State × UInt64) :=
  match s.search size align env.rounds s.current with
  | none => none
  | some (s, some m) => some (s, m)
  | some (s, none) => s.ngx_palloc_block size env

/-- The loop of `ngx_pfree`, with the nodes behind it if one has the region `p`. -/
def release (p : UInt64) : List Large → Option (List Large)
  | [] => none
  | l :: rest =>
    if p = l.alloc then some ({ l with alloc := 0 } :: rest)
    else (release p rest).map (l :: ·)

def ngx_pfree (s : State) (p : UInt64) : Option State :=
  match release p s.large with
  | none => some s
  | some large => { s with large }.free p

/-- The loop of `ngx_palloc_large`, with the nodes behind it if one could take the region. -/
def reuse (p : UInt64) : Nat → List Large → Option (List Large)
  | _, [] => none
  | n, l :: rest =>
    if l.alloc = 0 then some ({ l with alloc := p } :: rest)
    else if n > 3 then none
    else (reuse p (n + 1) rest).map (l :: ·)

def ngx_palloc_large (s : State) (size : UInt64) (env : Env) : Option (State × UInt64) :=
  match s.malloc size env.large with
  | none => none
  | some s =>
    if env.large = 0 then some (s, 0)
    else
      match reuse env.large 0 s.large with
      | some large => some ({ s with large }, env.large)
      | none =>
        match s.ngx_palloc_small sizeof_ngx_pool_large_s true env with
        | none => none
        | some (s, node) =>
          if node = 0 then (s.ngx_pfree env.large).map (·, 0)
          else some ({ s with large := ⟨node, env.large⟩ :: s.large }, env.large)

def ngx_palloc (s : State) (size : UInt64) (env : Env) : Option (State × UInt64) :=
  if size ≤ s.max then s.ngx_palloc_small size true env else s.ngx_palloc_large size env

def ngx_pnalloc (s : State) (size : UInt64) (env : Env) : Option (State × UInt64) :=
  if size ≤ s.max then s.ngx_palloc_small size false env else s.ngx_palloc_large size env

/-- It also fills the range with zeros; what a range holds is left to the user. -/
def ngx_pcalloc (s : State) (size : UInt64) (env : Env) : Option (State × UInt64) :=
  s.ngx_palloc size env

/-! ## Reset, cleanups and destruction -/

/-- The body of the first loop of `ngx_resent_pool`, at its `i`-th node. -/
def resetLarge (s : State) (i : Nat) : Option State :=
  match s.large[i]? with
  | none => none
  | some l => if l.alloc = 0 then some s else s.ngx_pfree l.alloc

/-- The second loop of `ngx_resent_pool`, from the block `p` on. -/
def resetBlocks (s : State) : Nat → UInt64 → Option State
  | 0, _ => none
  | rounds + 1, p =>
    if p = 0 then some s
    else
      match s.data p with
      | none => none
      | some d =>
        (s.setData p { d with last := p + sizeof_ngx_pool_data_t, failed := 0 }).resetBlocks
          rounds d.next

def ngx_resent_pool (s : State) (rounds : Nat) : Option State :=
  match (List.range s.large.length).foldlM resetLarge s with
  | none => none
  | some s =>
    match s.data s.pool with
    | none => none
    | some d =>
      let first := { d with last := s.pool + sizeof_ngx_pool_s, failed := 0 }
      match (s.setData s.pool first).resetBlocks rounds d.next with
      | none => none
      | some s => some { s with current := s.pool, large := [], allocs := [] }

/-- The body of the second loop of `ngx_destory_pool`. -/
def destroyLarge (s : State) (l : Large) : Option State :=
  if l.alloc = 0 then some s else s.free l.alloc

/-- The third loop of `ngx_destory_pool`, at the block `p`; what `d.next` holds is read before
the block is freed. -/
def destroyBlocks (s : State) : Nat → UInt64 → Option State
  | 0, _ => none
  | rounds + 1, p =>
    match s.data p with
    | none => none
    | some d =>
      match s.free p with
      | none => none
      | some s =>
        let s := { s with data := update s.data p none }
        if d.next = 0 then some s else s.destroyBlocks rounds d.next

/-- Without its first loop, which calls the handlers of the user. -/
def ngx_destory_pool (s : State) (rounds : Nat) : Option State :=
  match s.large.foldlM destroyLarge s with
  | none => none
  | some s => s.destroyBlocks rounds s.pool

/-- The second `Env` is for the data. -/
def ngx_pool_cleanup_add (s : State) (size : UInt64) (env env' : Env) :
    Option (State × UInt64) :=
  match s.ngx_palloc sizeof_ngx_pool_cleanup_s env with
  | none => none
  | some (s, c) =>
    if c = 0 then some (s, 0)
    else if size = 0 then some ({ s with cleanup := ⟨c, 0⟩ :: s.cleanup }, c)
    else
      match s.ngx_palloc size env' with
      | none => none
      | some (s, data) =>
        if data = 0 then some (s, 0)
        else some ({ s with cleanup := ⟨c, data⟩ :: s.cleanup }, c)

end State

/-- The calls of a user. -/
inductive Request where
  | palloc (size : UInt64) (env : Env)
  | pnalloc (size : UInt64) (env : Env)
  | pcalloc (size : UInt64) (env : Env)
  | pfree (p : UInt64)
  | resentPool (rounds : Nat)
  | cleanupAdd (size : UInt64) (env env' : Env)
  deriving DecidableEq, Repr

/-- A call, with the pointer that it returns. -/
def call (s : State) : Request → Option (State × UInt64)
  | .palloc size env => s.ngx_palloc size env
  | .pnalloc size env => s.ngx_pnalloc size env
  | .pcalloc size env => s.ngx_pcalloc size env
  | .pfree p => (s.ngx_pfree p).map (·, 0)
  | .resentPool rounds => (s.ngx_resent_pool rounds).map (·, 0)
  | .cleanupAdd size env env' => s.ngx_pool_cleanup_add size env env'

def step (s : State) (r : Request) : Option State := (call s r).map (·.1)

/-! ## What the allocation functions do -/

/-- A request for memory: its size, whether it is aligned, and the rest. -/
def Request.memory : Request → Option (UInt64 × Bool × Env)
  | .palloc size env | .pcalloc size env => some (size, true, env)
  | .pnalloc size env => some (size, false, env)
  | .pfree _ | .resentPool _ | .cleanupAdd _ _ _ => none

namespace State

variable {s s' : State} {size m p : UInt64} {align : Bool} {env : Env} {rounds : Nat}

theorem call_of_memory {r : Request} (h : r.memory = some (size, align, env))
    (hsize : size ≤ s.max) : call s r = s.ngx_palloc_small size align env := by
  cases r with
  | palloc | pcalloc | pnalloc =>
    cases h
    exact if_pos hsize
  | pfree | resentPool | cleanupAdd => cases h

/-- The remaining space from a place in the block on. -/
theorem le_sub_iff {a b : UInt64} (hab : a ≤ b) :
    size ≤ b - a ↔ a.toNat + size.toNat ≤ b.toNat := by
  have hle : a.toNat ≤ b.toNat := UInt64.le_iff_toNat_le.mp hab
  rw [UInt64.le_iff_toNat_le, UInt64.toNat_sub_of_le b a hab]
  omega

/-- Where rounding up does not pass `d.end`, it does not wrap either. -/
theorem toNat_place {d : PoolData} (hfit : roundUp 8 d.last.toNat ≤ d.end_.toNat) :
    (place d true).toNat = roundUp 8 d.last.toNat := by
  apply toNat_ngx_align_ptr
  have hle := le_roundUp (a := 8) (by decide) d.last.toNat
  have hend := d.end_.toNat_lt
  obtain ⟨k, hk⟩ := dvd_roundUp 8 d.last.toNat
  omega

/-- Where it does, the place is just behind the end of the block, or it has wrapped. -/
theorem place_outside {d : PoolData} (hfit : d.end_.toNat < roundUp 8 d.last.toNat) :
    (d.end_.toNat < (place d true).toNat ∧ (place d true).toNat ≤ d.last.toNat + 7) ∨
      ((place d true).toNat < 8 ∧ 2 ^ 64 ≤ d.last.toNat + 7) := by
  have hle : (place d true).toNat ≤ (d.last + 7).toNat := toNat_ngx_align_ptr_le d.last
  have hlast := d.last.toNat_lt
  have hadd : (d.last + 7).toNat = (d.last.toNat + 7) % 2 ^ 64 := UInt64.toNat_add d.last 7
  by_cases hwrap : d.last.toNat + 7 < 2 ^ 64
  · have hplace : (place d true).toNat = roundUp 8 d.last.toNat := toNat_ngx_align_ptr hwrap
    omega
  · omega

theorem search_served (h : s.search size align rounds p = some (s', some m)) :
    ∃ b d, s.data b = some d ∧ m = place d align ∧ size ≤ d.end_ - m ∧
      s' = s.handOut b d m size := by
  induction rounds generalizing p with
  | zero => cases h
  | succ rounds ih =>
    simp only [search] at h
    split at h
    · cases h
    · rename_i d hd
      split at h
      · rename_i hroom
        cases h
        exact ⟨p, d, hd, rfl, hroom, rfl⟩
      · split at h
        · cases h
        · exact ih h

theorem search_none (h : s.search size align rounds p = some (s', none)) : s' = s := by
  induction rounds generalizing p with
  | zero => cases h
  | succ rounds ih =>
    simp only [search] at h
    split at h
    · cases h
    · split at h
      · cases h
      · split at h
        · cases h
          rfl
        · exact ih h

theorem countFailures_frame (h : s.countFailures rounds p = some (s', m)) :
    s'.pool = s.pool ∧ s'.max = s.max ∧ s'.large = s.large ∧ s'.cleanup = s.cleanup ∧
      s'.regions = s.regions ∧ s'.allocs = s.allocs ∧ s'.trace = s.trace := by
  induction rounds generalizing s p with
  | zero => cases h
  | succ rounds ih =>
    simp only [countFailures] at h
    split at h
    · cases h
    · split at h
      · cases h
        exact ⟨rfl, rfl, rfl, rfl, rfl, rfl, rfl⟩
      · have hrest := ih h
        exact hrest

/-- Either `malloc` fails, or a block is added to the pool. -/
theorem palloc_block_cases (h : s.ngx_palloc_block size env = some (s', m)) :
    (env.block = 0 ∧ s' = s ∧ m = 0) ∨
    ∃ first counted p d, s.data s.pool = some first ∧ env.block ≠ 0 ∧
      Fresh s.regions ⟨env.block, first.end_ - s.pool⟩ ∧
      (env.p = env.block ∨ (s.data env.p).isSome = true) ∧
      m = ngx_align_ptr (env.block + sizeof_ngx_pool_data_t) NGX_ALIGNMENT ∧
      State.countFailures
        { s.setData env.p ⟨m + size, env.block + (first.end_ - s.pool), 0, 0⟩ with
          regions := ⟨env.block, first.end_ - s.pool⟩ :: s.regions
          trace := s.trace ++ [.grown env.p env.block] } env.rounds s.current =
        some (counted, p) ∧
      counted.data p = some d ∧
      s' = { counted.setData p { d with next := env.p } with
        allocs := ⟨m, size⟩ :: counted.allocs } := by
  simp only [ngx_palloc_block, malloc, writeNewpool] at h
  split at h
  · cases h
  · rename_i first hfirst
    by_cases hblock : env.block = 0
    · simp only [hblock, if_true, Option.some.injEq, Prod.mk.injEq] at h
      exact Or.inl ⟨hblock, h.1.symm, h.2.symm⟩
    · by_cases hfresh : Fresh s.regions ⟨env.block, first.end_ - s.pool⟩
      · simp only [hblock, hfresh, if_true, if_false] at h
        by_cases hp : env.p = env.block ∨ (s.data env.p).isSome = true
        · simp only [hp, if_true] at h
          split at h
          · cases h
          · rename_i counted p hcount
            split at h
            · cases h
            · rename_i d hd
              cases h
              exact Or.inr ⟨first, counted, p, d, hfirst, hblock, hfresh, hp, rfl, hcount, hd, rfl⟩
        · simp only [hp, if_false] at h
          cases h
      · simp only [hblock, hfresh, if_false] at h
        cases h

/-- Either `malloc` fails, or the region gets a node: an old one, a new one, or none. -/
theorem palloc_large_cases (h : s.ngx_palloc_large size env = some (s', m)) :
    (env.large = 0 ∧ s' = s ∧ m = 0) ∨
    ∃ t, env.large ≠ 0 ∧ Fresh s.regions ⟨env.large, size⟩ ∧
      t = { s with regions := ⟨env.large, size⟩ :: s.regions } ∧
      ((∃ large, reuse env.large 0 s.large = some large ∧ s' = { t with large } ∧
          m = env.large) ∨
        ∃ s₂ node, t.ngx_palloc_small sizeof_ngx_pool_large_s true env = some (s₂, node) ∧
          (node = 0 ∧ s₂.ngx_pfree env.large = some s' ∧ m = 0 ∨
            node ≠ 0 ∧ s' = { s₂ with large := ⟨node, env.large⟩ :: s₂.large } ∧
              m = env.large)) := by
  simp only [ngx_palloc_large, malloc] at h
  by_cases hlarge : env.large = 0
  · simp only [hlarge, if_true, Option.some.injEq, Prod.mk.injEq] at h
    exact Or.inl ⟨hlarge, h.1.symm, h.2.symm⟩
  · by_cases hfresh : Fresh s.regions ⟨env.large, size⟩
    · simp only [hlarge, hfresh, if_true, if_false] at h
      refine Or.inr ⟨_, hlarge, hfresh, rfl, ?_⟩
      split at h
      · rename_i large hreuse
        cases h
        exact Or.inl ⟨large, hreuse, rfl, rfl⟩
      · split at h
        · cases h
        · rename_i s₂ node hsmall
          refine Or.inr ⟨s₂, node, hsmall, ?_⟩
          split at h
          · rename_i hnode
            obtain ⟨s₃, hfree, heq⟩ := Option.map_eq_some_iff.mp h
            cases heq
            exact Or.inl ⟨hnode, hfree, rfl⟩
          · rename_i hnode
            cases h
            exact Or.inr ⟨hnode, rfl, rfl⟩
    · simp only [hlarge, hfresh, if_false] at h
      cases h

end State

end CppInOne.Pool
