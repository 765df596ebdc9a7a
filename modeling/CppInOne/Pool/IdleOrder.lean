import CppInOne.Pool.ConnectionConservation

/-!
# The idle queue of the connection pool

The scanner stops at the first connection that has not been idle for too long, because the
connections behind it are younger. They are, as long as `clock()` does not go back: connections
are refreshed just before they enter the queue.

## Main definitions

- `Aged` — a queue that is ordered by age
- `Pass` — what a pass of the scanner does

## Main results

- `idle_queue_aged` — the queue is ordered by age, and so the scanner is right to stop
-/

namespace CppInOne.ConnectionPool
open Function Transition State

variable {C : Type*} {s s' : State C}

/-- The oldest connection is in front. -/
def Aged (que : List Connection) : Prop :=
  que.Pairwise fun p p' => p._alivetime ≤ p'._alivetime

/-- What `clock()` returns in a step, in order. -/
def Action.readings : Action C → List Int
  | .produce now => [now]
  | .release _ _ now => [now]
  | .scan readings => readings
  | .client _ | .timeout _ | .spurious _ => []

/-! ## A pass of the scanner -/

/-- From `s` to `s'` a pass that calls `clock()` at its tests destroys the connections `gone`. -/
structure Pass (s : State C) (tests : List Int) (gone : List Connection) (s' : State C) :
    Prop where
  queue : s._connectionQue = gone ++ s'._connectionQue
  destroyed : s'.destroyed = (gone.map (·.id)).reverse ++ s.destroyed
  tested : gone.length ≤ tests.length
  idle : ∀ x ∈ gone.zip tests, x.2 - x.1._alivetime > idleLimit s
  count : s._initSize ≤ s._connectionCnt → s._initSize ≤ s'._connectionCnt
  /-- Where it stops at the `break`, it has just found a connection to keep. -/
  stopped : s'._connectionCnt > s._initSize →
    ∃ p rest, s'._connectionQue = p :: rest ∧ s'.clock - p._alivetime ≤ idleLimit s
  config : s'._initSize = s._initSize ∧ s'._maxIdleTime = s._maxIdleTime
  threads : s'.producer = s.producer ∧ s'.clients = s.clients

/-- A pass that tests nothing. -/
theorem pass_nil (tests : List Int) (hcount : ¬ s._connectionCnt > s._initSize) :
    Pass s tests [] s where
  queue := rfl
  destroyed := rfl
  tested := Nat.zero_le _
  idle _ hx := absurd hx List.not_mem_nil
  count := id
  stopped h := absurd h hcount
  config := ⟨rfl, rfl⟩
  threads := ⟨rfl, rfl⟩

theorem le_sub_one {x y : Int32} (h : x < y) : x ≤ y - 1 := by
  have hlt : x.toInt < y.toInt := Int32.lt_iff_toInt_lt.mp h
  have hlo := x.le_toInt
  have hsub : (y - 1).toInt = y.toInt - 1 := toInt_sub_one (by omega)
  exact Int32.le_iff_toInt_le.mpr (by omega)

/-- A pass of the scanner, by induction on its tests. -/
theorem pass_of_scan {tests : List Int} (hs : s.scannerConnectionTask tests = some s') :
    ∃ gone, Pass s tests gone s' := by
  induction tests generalizing s with
  | nil =>
    simp only [scannerConnectionTask, Option.ite_none_left_eq_some, Option.some.injEq] at hs
    obtain ⟨hcount, rfl⟩ := hs
    exact ⟨[], pass_nil [] hcount⟩
  | cons now tests ih =>
    simp only [scannerConnectionTask] at hs
    split at hs
    · rename_i hcount
      split at hs
      · cases hs
      · rename_i p rest hqueue
        split at hs
        · rename_i hidle
          obtain ⟨gone, hpass⟩ := ih hs
          refine ⟨p :: gone, ?_, ?_, Nat.succ_le_succ hpass.tested, fun x hx => ?_, fun _ => ?_,
            hpass.stopped, hpass.config, hpass.threads⟩
          · rw [hqueue, List.cons_append, ← hpass.queue]
          · rw [hpass.destroyed, List.map_cons, List.reverse_cons, List.append_assoc]
            rfl
          · rw [List.zip_cons_cons] at hx
            obtain rfl | hx := List.mem_cons.mp hx
            · exact hidle
            · exact hpass.idle x hx
          · exact hpass.count (le_sub_one hcount)
        · rename_i hyoung
          cases hs
          exact ⟨[], rfl, rfl, Nat.zero_le _, fun _ hx => absurd hx List.not_mem_nil, id,
            fun _ => ⟨p, rest, hqueue, Int.not_lt.mp hyoung⟩, ⟨rfl, rfl⟩, ⟨rfl, rfl⟩⟩
    · rename_i hcount
      cases hs
      exact ⟨[], pass_nil _ hcount⟩

/-! ## The order of the queue -/

theorem Aged.suffix {que que' : List Connection} (h : Aged que) (hsuffix : que' <:+ que) :
    Aged que' :=
  h.sublist hsuffix.sublist

/-- A connection that has just been refreshed is younger than all others. -/
theorem Aged.push {que : List Connection} (h : Aged que) {p : Connection}
    (hold : ∀ p' ∈ que, p'._alivetime ≤ p._alivetime) : Aged (que ++ [p]) := by
  refine List.pairwise_append.mpr ⟨h, List.pairwise_singleton _ _, fun p' hp' q hq => ?_⟩
  rw [List.mem_singleton.mp hq]
  exact hold p' hp'

/-- Behind a connection that is not too old there are only such connections. -/
theorem Aged.young_of_front {p : Connection} {rest : List Connection} {now limit : Int}
    (h : Aged (p :: rest)) (hfront : now - p._alivetime ≤ limit) :
    ∀ p' ∈ p :: rest, now - p'._alivetime ≤ limit := by
  intro p' hp'
  obtain rfl | hp' := List.mem_cons.mp hp'
  · exact hfront
  · have hle := List.rel_of_pairwise_cons h hp'
    omega

theorem queue_constructed (initSize maxSize maxIdleTime : Int32) (readings : Nat → Int) :
    (constructed C initSize maxSize maxIdleTime readings)._connectionQue =
      (List.range initSize.toInt.toNat).map fun i => ⟨i, readings i⟩ := by
  suffices h : (constructed C initSize maxSize maxIdleTime readings)._connectionQue =
      (List.range initSize.toInt.toNat).map (fun i => ⟨i, readings i⟩) ∧
      (constructed C initSize maxSize maxIdleTime readings).created = initSize.toInt.toNat from h.1
  refine constructed_induction (P := fun n s =>
    s._connectionQue = (List.range n).map (fun i => ⟨i, readings i⟩) ∧ s.created = n)
    ⟨rfl, rfl⟩ ?_
  rintro n - s ⟨hque, hcreated⟩
  refine ⟨?_, congrArg (· + 1) hcreated⟩
  rw [List.range_succ, List.map_append, ← hque]
  show s._connectionQue ++ [⟨s.created, readings n⟩] = _
  rw [hcreated]
  rfl

variable [DecidableEq C]

/-- Every section leaves the back of the queue, or pushes a connection with one of its readings. -/
theorem queue_step {a : Action C} (hs : step s a = some s') :
    s'._connectionQue <:+ s._connectionQue ∨
      ∃ p, p._alivetime ∈ a.readings ∧ s'._connectionQue = s._connectionQue ++ [p] := by
  cases step_cases hs with
  | produce now =>
    simp only [produceConnectionTask]
    split
    · exact Or.inl List.suffix_rfl
    · split
      · exact Or.inr ⟨⟨s.created, now⟩, List.mem_cons_self, rfl⟩
      · exact Or.inl List.suffix_rfl
  | client =>
    simp only [getConnection]
    split
    · left
      split
      · exact List.suffix_rfl
      · exact List.suffix_rfl
    · rename_i p rest hqueue
      exact Or.inl ⟨[p], hqueue.symm⟩
  | @release c p now => exact Or.inr ⟨{ p with _alivetime := now }, List.mem_cons_self, rfl⟩
  | scan hs =>
    obtain ⟨gone, hpass⟩ := pass_of_scan hs
    exact Or.inl ⟨gone, hpass.queue.symm⟩
  | timeout | producerWakes | clientWakes => exact Or.inl List.suffix_rfl

/-- **Step lemma**: every section keeps the order, if its readings are not before the times in the
queue; and the times in the new queue are old ones or readings. -/
theorem Aged.step {a : Action C} (h : Aged s._connectionQue)
    (hclock : ∀ p ∈ s._connectionQue, ∀ now ∈ a.readings, p._alivetime ≤ now)
    (hs : ConnectionPool.step s a = some s') :
    Aged s'._connectionQue ∧
      ∀ p ∈ s'._connectionQue, p ∈ s._connectionQue ∨ p._alivetime ∈ a.readings := by
  obtain hsuffix | ⟨p, hnow, hque⟩ := queue_step hs
  · exact ⟨h.suffix hsuffix, fun p hp => Or.inl (hsuffix.subset hp)⟩
  · rw [hque]
    refine ⟨h.push fun p' hp' => hclock p' hp' _ hnow, fun q hq => ?_⟩
    obtain hq | hq := List.mem_append.mp hq
    · exact Or.inl hq
    · rw [List.mem_singleton.mp hq]
      exact Or.inr hnow

/-- **Run lemma**, by induction on the steps: what has been read before is not after what will be
read. -/
theorem aged_of_run {as : List (Action C)} (h : Aged s._connectionQue)
    (hold : ∀ p ∈ s._connectionQue, ∀ now ∈ as.flatMap Action.readings, p._alivetime ≤ now)
    (hclock : (as.flatMap Action.readings).Pairwise (· ≤ ·)) (hrun : run step s as = some s') :
    Aged s'._connectionQue := by
  induction as generalizing s with
  | nil =>
    cases hrun
    exact h
  | cons a as ih =>
    obtain ⟨t, ht, hrest⟩ := run_cons_eq_some.mp hrun
    rw [List.flatMap_cons, List.pairwise_append] at hclock
    obtain ⟨-, hlater, hcross⟩ := hclock
    obtain ⟨haged, htimes⟩ := h.step (fun p hp now hnow => hold p hp now
      (List.mem_flatMap.mpr ⟨a, List.mem_cons_self, hnow⟩)) ht
    refine ih haged (fun p hp now hnow => ?_) hlater hrest
    obtain hp | hp := htimes p hp
    · exact hold p hp now (List.mem_append_right _ hnow)
    · exact hcross _ hp now hnow

/-- **The idle queue is ordered by age**, in every run in which `clock()` does not go back. A pass
that stops at its `break` leaves no connection that has been idle for longer than the limit, a pass
destroys only connections that have, and it does not bring the count below `_initSize`. The limit
is `_maxIdleTime * 1000` where this does not overflow. -/
theorem idle_queue_aged {initSize maxSize maxIdleTime : Int32} {readings : Nat → Int}
    {as : List (Action C)}
    (hclock : ((List.range initSize.toInt.toNat).map readings ++
      as.flatMap Action.readings).Pairwise (· ≤ ·))
    (hrun : run step (constructed C initSize maxSize maxIdleTime readings) as = some s) :
    s._connectionQue.Pairwise (fun p p' => p._alivetime ≤ p'._alivetime) ∧
      (-2 ^ 31 ≤ s._maxIdleTime.toInt * 1000 → s._maxIdleTime.toInt * 1000 < 2 ^ 31 →
        s.idleLimit = s._maxIdleTime.toInt * 1000) ∧
      ∀ tests s', step s (.scan tests) = some s' →
        (s'._connectionCnt > s'._initSize →
          ∀ p ∈ s'._connectionQue, s'.clock - p._alivetime ≤ s.idleLimit) ∧
        (∃ gone, s._connectionQue = gone ++ s'._connectionQue ∧
          s'.destroyed = (gone.map (·.id)).reverse ++ s.destroyed ∧
          gone.length ≤ tests.length ∧
          ∀ x ∈ gone.zip tests, x.2 - x.1._alivetime > s.idleLimit) ∧
        (s._initSize ≤ s._connectionCnt → s'._initSize ≤ s'._connectionCnt) := by
  obtain ⟨hinit, hlater, hcross⟩ := List.pairwise_append.mp hclock
  have hqueue := queue_constructed (C := C) initSize maxSize maxIdleTime readings
  have haged : Aged s._connectionQue := by
    refine aged_of_run ?_ (fun p hp => ?_) hlater hrun
    · rw [hqueue]
      exact List.pairwise_map.mpr (List.pairwise_map.mp hinit)
    · rw [hqueue] at hp
      obtain ⟨i, hi, rfl⟩ := List.mem_map.mp hp
      exact hcross _ (List.mem_map_of_mem hi)
  refine ⟨haged, s.idleLimit_eq, fun tests s' hs => ?_⟩
  obtain ⟨gone, hpass⟩ := pass_of_scan hs
  refine ⟨fun hstop => ?_, ⟨gone, hpass.queue, hpass.destroyed, hpass.tested, hpass.idle⟩, ?_⟩
  · rw [hpass.config.1] at hstop
    obtain ⟨p, rest, hrest, hfront⟩ := hpass.stopped hstop
    have hsuffix := haged.suffix ⟨gone, hpass.queue.symm⟩
    rw [hrest] at hsuffix ⊢
    exact hsuffix.young_of_front hfront
  · rw [hpass.config.1]
    exact hpass.count

/-- Two clients borrow three connections and give them back. -/
def lent : List (Action Bool) :=
  [.client true, .client false, .produce 5, .client false, .client true, .produce 6, .client true,
    .release true ⟨0, 1⟩ 9, .release true ⟨2, 6⟩ 20, .release false ⟨1, 5⟩ 30]

/-- A pass destroys the connection that came back first, and stops at the second. -/
theorem idle_queue_aged_lent :
    ∃ s s', run step (constructed Bool 1 3 60 fun _ => 1) lent = some s ∧
      s._connectionQue = [⟨0, 9⟩, ⟨2, 20⟩, ⟨1, 30⟩] ∧
      step s (.scan [60015, 60018]) = some s' ∧ s'.destroyed = [0] ∧
      s'._connectionCnt > s'._initSize ∧
      ∀ p ∈ s'._connectionQue, s'.clock - p._alivetime ≤ 60000 := by
  have hrun : run step (constructed Bool 1 3 60 fun _ => 1) lent = some _ := rfl
  obtain ⟨-, -, hscan⟩ := idle_queue_aged (by decide) hrun
  exact ⟨_, _, hrun, rfl, rfl, rfl, by decide, (hscan [60015, 60018] _ rfl).1 (by decide)⟩

end CppInOne.ConnectionPool
