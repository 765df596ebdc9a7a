import CppInOne.Pool.IdleOrder

/-!
# Clients that wait for a connection

The producer and `getConnection` call `notify_all` after every change of the queue. The deleter
pushes a connection without it: a client that sleeps at that time goes on sleeping, unless another
client that has been woken takes the connection and notifies.

## Main definitions

- `Stranded` — a client sleeps although there is a connection, and nobody has been woken
- `NoneLeftAsleep` — a connection comes back while somebody will look for it

## Main results

- `waiting_clients_woken` — no client is stranded if all connections come back so
- `stranded_of_release` — otherwise one is
-/

namespace CppInOne.ConnectionPool
open Function Transition State

variable {C : Type*} {s s' : State C}

/-- A client sleeps in `wait_for`, there is a connection, and no thread has a wakeup left. -/
def Stranded (s : State C) : Prop :=
  s._connectionQue ≠ [] ∧ s.producer ≠ .woken ∧ (∀ c, s.clients c ≠ .woken) ∧
    ∃ c, s.clients c = .waiting

/-- At a release no client sleeps, or one has been woken and has not gone on yet. -/
def NoneLeftAsleep (s : State C) : Action C → Prop
  | .release _ _ _ => (∀ c, s.clients c ≠ .waiting) ∨ ∃ c, s.clients c = .woken
  | _ => True

/-- While there are connections, the clients that sleep will be woken by one that has been. -/
def Watched (s : State C) : Prop :=
  s._connectionQue ≠ [] → (∃ c, s.clients c = .waiting) → ∃ c, s.clients c = .woken

/-! ## The invariant -/

theorem notify_all_ne_waiting (s : State C) (c : C) : s.notify_all.clients c ≠ .waiting := by
  show Thread.notified (s.clients c) ≠ .waiting
  cases s.clients c with
  | ready | waiting | woken | timedOut => exact Thread.noConfusion

theorem Watched.of_notify_all (s : State C) : Watched s.notify_all :=
  fun _ ⟨c, hc⟩ => absurd hc (notify_all_ne_waiting s c)

/-- Nobody falls asleep, and connections only leave. -/
theorem Watched.of_suffix (h : Watched s) (hclients : s'.clients = s.clients)
    (hqueue : s'._connectionQue <:+ s._connectionQue) : Watched s' := by
  intro hne hwaiting
  rw [hclients] at hwaiting ⊢
  exact h (fun hnil => hne (List.suffix_nil.mp (hnil ▸ hqueue))) hwaiting

theorem Watched.produce (h : Watched s) (now : Int) : Watched (s.produceConnectionTask now) := by
  simp only [produceConnectionTask]
  split
  · exact h
  · split
    · exact Watched.of_notify_all (s.addConnection now)
    · exact Watched.of_notify_all s

variable [DecidableEq C]

theorem Watched.client (c : C) : Watched (s.getConnection c).1 := by
  simp only [getConnection]
  split
  · rename_i hqueue
    split
    · exact fun hne => absurd hqueue hne
    · exact fun hne => absurd hqueue hne
  · exact Watched.of_notify_all _

/-- Where one client stops sleeping, the others are still watched by the same one. -/
theorem Watched.update {c : C} {t : Thread} (h : Watched s)
    (hwaiting : s.clients c = .waiting) : Watched { s with clients := update s.clients c t } := by
  rintro hne ⟨c', hc'⟩
  obtain ⟨d, hd⟩ := h hne ⟨c, hwaiting⟩
  have hdc : d ≠ c := by
    rintro rfl
    rw [hwaiting] at hd
    cases hd
  exact ⟨d, (update_of_ne hdc t s.clients).trans hd⟩

/-- **Step lemma**: every section keeps the invariant, a release under its condition. -/
theorem Watched.step {a : Action C} (h : Watched s) (ha : NoneLeftAsleep s a)
    (hs : step s a = some s') : Watched s' := by
  cases step_cases hs with
  | produce now => exact h.produce now
  | @client c => exact Watched.client c
  | timeout hwaiting | clientWakes hwaiting => exact h.update hwaiting
  | release =>
    rintro - ⟨c, hc⟩
    obtain hnone | hwoken := ha
    · exact absurd hc (hnone c)
    · exact hwoken
  | scan hs =>
    obtain ⟨gone, hpass⟩ := pass_of_scan hs
    exact h.of_suffix hpass.threads.2 ⟨gone, hpass.queue.symm⟩
  | producerWakes => exact h

/-- A woken client finds a connection, takes it and wakes all others. -/
theorem wakes_of_woken {c c' : C} (hqueue : s._connectionQue ≠ []) (hc : s.clients c = .waiting)
    (hc' : s.clients c' = .woken) :
    ∃ s', ConnectionPool.step s (.client c') = some s' ∧ s'.clients c = .woken := by
  obtain ⟨p, rest, hque⟩ := List.exists_cons_of_ne_nil hqueue
  have hcc' : c ≠ c' := by
    rintro rfl
    rw [hc] at hc'
    cases hc'
  refine ⟨(s.getConnection c').1, ?_, ?_⟩
  · simp only [ConnectionPool.step, hc']
  · simp only [getConnection, hque, notify_all, update_of_ne hcc', hc]
    rfl

/-- **No client is stranded** in a run in which connections come back while no client sleeps, or
while a client that has been woken is about to look: that client ends the waits of the others. -/
theorem waiting_clients_woken {initSize maxSize maxIdleTime : Int32} {readings : Nat → Int}
    {as : List (Action C)}
    (hguard : Guarded step NoneLeftAsleep
      (constructed C initSize maxSize maxIdleTime readings) as)
    (hrun : run step (constructed C initSize maxSize maxIdleTime readings) as = some s) :
    ¬ Stranded s ∧ ∀ c, s._connectionQue ≠ [] → s.clients c = .waiting →
      ∃ c' s', s.clients c' = .woken ∧ step s (.client c') = some s' ∧ s'.clients c = .woken := by
  have hstart : Watched (constructed C initSize maxSize maxIdleTime readings) := by
    rintro - ⟨c, hc⟩
    have hready : ∀ c, (constructed C initSize maxSize maxIdleTime readings).clients c = .ready :=
      constructed_induction (P := fun _ s => ∀ c, s.clients c = .ready) (fun _ => rfl)
        fun _ _ _ h => h
    rw [hready c] at hc
    cases hc
  have h : Watched s :=
    run_invariant (fun _ _ _ h ha hs => h.step ha hs) hstart hguard hrun
  refine ⟨?_, fun c hqueue hc => ?_⟩
  · rintro ⟨hqueue, -, hnone, hwaiting⟩
    obtain ⟨c, hc⟩ := h hqueue hwaiting
    exact hnone c hc
  · obtain ⟨c', hc'⟩ := h hqueue ⟨c, hc⟩
    obtain ⟨s', hs, hwoken⟩ := wakes_of_woken hqueue hc hc'
    exact ⟨c', s', hc', hs, hwoken⟩

/-- After any other release a client is stranded, at the latest when the producer has looked. -/
theorem stranded_of_release {c : C} {p : Connection} {now : Int}
    (hs : step s (.release c p now) = some s') (hasleep : ¬ NoneLeftAsleep s (.release c p now)) :
    Stranded s' ∨ ∃ t, step s' (.produce now) = some t ∧ Stranded t := by
  obtain ⟨-, hs⟩ := Option.ite_none_right_eq_some.mp hs
  cases hs
  obtain ⟨hwaiting, hnone⟩ := not_or.mp hasleep
  rw [not_forall_not] at hwaiting
  rw [not_exists] at hnone
  have hqueue : (s.deleter c p now)._connectionQue ≠ [] := List.append_ne_nil_of_right_ne_nil _
    (List.cons_ne_nil _ _)
  by_cases hproducer : s.producer = .woken
  · -- The wakeup of the producer is spent on the test of its own loop.
    right
    refine ⟨{ s.deleter c p now with producer := .waiting }, ?_, hqueue, ?_, hnone, hwaiting⟩
    · simp only [step, produceConnectionTask, if_pos hqueue]
      rw [show (s.deleter c p now).producer = .woken from hproducer]
    · exact Thread.noConfusion
  · left
    exact ⟨hqueue, hproducer, hnone, hwaiting⟩

/-- A connection comes back while one client sleeps and the other one has been woken. -/
def comingBack : List (Action Bool) :=
  [.client true, .client false, .produce 5, .client true, .client true, .release true ⟨0, 1⟩ 9]

theorem waiting_clients_woken_comingBack :
    ∃ s, run step (constructed Bool 1 2 60 fun _ => 1) comingBack = some s ∧
      s._connectionQue = [⟨0, 9⟩] ∧ s.clients true = .waiting ∧ ¬ Stranded s := by
  have hguard : Guarded step NoneLeftAsleep (constructed Bool 1 2 60 fun _ => 1) comingBack :=
    ⟨trivial, trivial, trivial, trivial, trivial, Or.inr ⟨false, rfl⟩, trivial⟩
  have hrun : run step (constructed Bool 1 2 60 fun _ => 1) comingBack = some _ := rfl
  exact ⟨_, hrun, rfl, rfl, (waiting_clients_woken hguard hrun).1⟩

/-- The only connection comes back, the producer looks and goes to sleep, and the client that has
been waiting for the connection sleeps on. -/
theorem returned_stranded :
    ∃ s, run step (constructed Bool 1 1 60 fun _ => 1)
        [.client true, .client false, .release true ⟨0, 1⟩ 9, .produce 10] = some s ∧
      s._connectionQue = [⟨0, 9⟩] ∧ s.producer = .waiting ∧ Stranded s := by
  refine ⟨_, rfl, rfl, rfl, List.cons_ne_nil _ _, Thread.noConfusion, fun c => ?_, false, rfl⟩
  cases c with
  | false | true => exact Thread.noConfusion

end CppInOne.ConnectionPool
