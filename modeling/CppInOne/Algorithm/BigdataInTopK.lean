import CppInOne.Lib.PriorityQueue
import Mathlib.Algebra.Group.Int.Defs
import Mathlib.Algebra.Group.Nat.Defs
import Mathlib.Data.List.Dedup
import Mathlib.Data.List.Induction
import Mathlib.Data.Multiset.MapFold
import Mathlib.Data.Multiset.UnionInter

/-!
# The most frequent values (`BigdataInTopK.cpp`)

The program counts the values of a vector in a hash map and then goes through the map with a
priority queue for ten entries, whose top is the rarest value in it.

`none` is undefined behaviour: a counter, which is an `int`, that goes beyond its largest value, or
the top of an empty queue. A hash map may be gone through in any order; the entries of `numMap` are
in the order in which the values came up first.

## Main results

- `count_values` — the map holds the numbers of occurrences, as long as they are `int`s
- `minheap_frequent` — the queue ends with the most frequent values
-/

namespace CppInOne.Algorithm.BigdataInTopK

/-- A value and how often it occurs. -/
abbrev P := ℤ × ℤ

def INT_MAX : ℤ := 2 ^ 31 - 1

/-- The number of entries that the program looks for. -/
def limit : ℕ := 10

/-- `numMap[val]++`, which makes an entry with 0 first if there is none. -/
def increment (val : ℤ) : List P → Option (List P)
  | [] => some [(val, 1)]
  | (v, n) :: rest =>
    if v = val then if n = INT_MAX then none else some ((v, n + 1) :: rest)
    else (increment val rest).map ((v, n) :: ·)

/-- `for (int val : vec) numMap[val]++;` -/
def countValues (vec : List ℤ) : Option (List P) :=
  vec.foldlM (fun numMap val => increment val numMap) []

section Loops

variable (Q : PriorityQueue P Prod.snd)

/-- `for (; it != numMap.end() && k < 10; ++it, ++k)`, for the entries from `it` on. What is left of
them is returned with the queue. -/
def fill : List P → ℕ → Q.Heap → List P × Q.Heap
  | [], _, minheap => ([], minheap)
  | it :: rest, k, minheap =>
    if k < limit then fill rest (k + 1) (Q.push it minheap) else (it :: rest, minheap)

/-- `for (; it != numMap.end(); ++it)` -/
def compare : List P → Q.Heap → Option Q.Heap
  | [], minheap => some minheap
  | it :: rest, minheap =>
    match Q.top minheap with
    | none => none
    | some top =>
      if it.2 > top.2 then compare rest (Q.push it (Q.pop minheap)) else compare rest minheap

/-- The two loops over the map, for the order in which it is gone through. -/
def topK (order : List P) : Option Q.Heap :=
  let filled := fill Q order 0 Q.empty
  compare Q filled.1 filled.2

end Loops

/-- The entries of a map in which values have been counted. -/
structure Counts (vec : List ℤ) (numMap : List P) : Prop where
  nodup : (numMap.map Prod.fst).Nodup
  entry : ∀ p, p ∈ numMap ↔ p.1 ∈ vec ∧ p.2 = vec.count p.1

/-- What should be in the queue at the end. -/
structure Frequent (vec : List ℤ) (kept : Multiset P) : Prop where
  size : kept.card = min limit vec.dedup.length
  distinct : (kept.map Prod.fst).Nodup
  exact : ∀ p ∈ kept, p.1 ∈ vec ∧ p.2 = vec.count p.1
  most : ∀ v, v ∉ kept.map Prod.fst → ∀ p ∈ kept, (vec.count v : ℤ) ≤ p.2

variable {Q : PriorityQueue P Prod.snd} {vec : List ℤ} {numMap numMap' order rest : List P}
  {val v n : ℤ} {minheap : Q.Heap} {kept dropped : Multiset P}

/-! ## Counting -/

theorem increment_new (h : val ∉ numMap.map Prod.fst) :
    increment val numMap = some (numMap ++ [(val, 1)]) := by
  induction numMap with
  | nil => rfl
  | cons p numMap ih =>
    obtain ⟨hp, hrest⟩ := not_or.mp (mt List.mem_cons.mpr h)
    rw [increment, if_neg (Ne.symm hp), ih hrest]
    rfl

theorem increment_found (h : val ∉ numMap.map Prod.fst) (hn : n ≠ INT_MAX) :
    increment val (numMap ++ (val, n) :: rest) = some (numMap ++ (val, n + 1) :: rest) := by
  induction numMap with
  | nil => rw [List.nil_append, increment, if_pos rfl, if_neg hn, List.nil_append]
  | cons p numMap ih =>
    obtain ⟨hp, hrest⟩ := not_or.mp (mt List.mem_cons.mpr h)
    rw [List.cons_append, increment, if_neg (Ne.symm hp), ih hrest]
    rfl

theorem increment_overflow (h : val ∉ numMap.map Prod.fst) :
    increment val (numMap ++ (val, INT_MAX) :: rest) = none := by
  induction numMap with
  | nil => rw [List.nil_append, increment, if_pos rfl, if_pos rfl]
  | cons p numMap ih =>
    obtain ⟨hp, hrest⟩ := not_or.mp (mt List.mem_cons.mpr h)
    rw [List.cons_append, increment, if_neg (Ne.symm hp), ih hrest]
    rfl

theorem Counts.nil : Counts [] [] := by
  refine ⟨List.nodup_nil, fun p => iff_of_false List.not_mem_nil fun h => ?_⟩
  exact List.not_mem_nil h.1

theorem Counts.mem_keys (h : Counts vec numMap) : v ∈ numMap.map Prod.fst ↔ v ∈ vec := by
  constructor
  · intro hv
    obtain ⟨p, hp, rfl⟩ := List.mem_map.mp hv
    exact ((h.entry p).mp hp).1
  · intro hv
    exact List.mem_map.mpr ⟨(v, vec.count v), (h.entry _).mpr ⟨hv, rfl⟩, rfl⟩

/-- The entry of a value that has come up. -/
theorem Counts.split (h : Counts vec numMap) (hv : v ∈ vec) :
    ∃ front back, numMap = front ++ (v, (vec.count v : ℤ)) :: back ∧
      v ∉ front.map Prod.fst ∧ v ∉ back.map Prod.fst := by
  obtain ⟨front, back, rfl⟩ := List.append_of_mem ((h.entry (v, vec.count v)).mpr ⟨hv, rfl⟩)
  have hnodup := h.nodup
  rw [List.map_append, List.map_cons] at hnodup
  have hmiddle := List.nodup_middle.mp hnodup
  rw [List.nodup_cons, List.mem_append, not_or] at hmiddle
  exact ⟨front, back, rfl, hmiddle.1⟩

theorem count_concat_of_ne (hv : v ≠ val) : (vec ++ [val]).count v = vec.count v := by
  rw [List.count_append, List.count_singleton, if_neg (by simpa using Ne.symm hv), Nat.add_zero]

/-- The counter of a value that has come up before goes up. -/
theorem Counts.increment_old {front back : List P}
    (h : Counts vec (front ++ (val, (vec.count val : ℤ)) :: back))
    (hfront : val ∉ front.map Prod.fst) (hback : val ∉ back.map Prod.fst) :
    Counts (vec ++ [val]) (front ++ (val, (vec.count val : ℤ) + 1) :: back) := by
  refine ⟨?_, ?_⟩
  · have hnodup := h.nodup
    rwa [List.map_append, List.map_cons] at hnodup ⊢
  · rintro ⟨v, m⟩
    have hentry := h.entry (v, m)
    by_cases hv : v = val
    · subst hv
      have hfront' : (v, m) ∉ front := fun hm => hfront (List.mem_map_of_mem hm)
      have hback' : (v, m) ∉ back := fun hm => hback (List.mem_map_of_mem hm)
      simp [hfront', hback', List.count_append]
    · have hne : ∀ n : ℤ, (v, m) ≠ (val, n) := fun n heq => hv (congrArg Prod.fst heq)
      simp only [List.mem_append, List.mem_cons, hne, false_or] at hentry ⊢
      rw [hentry, count_concat_of_ne hv, or_iff_left]
      simpa using hv

/-- A value that comes up for the first time gets an entry. -/
theorem Counts.increment_new (h : Counts vec numMap) (hval : val ∉ vec) :
    Counts (vec ++ [val]) (numMap ++ [(val, 1)]) := by
  have hnew : val ∉ numMap.map Prod.fst := mt h.mem_keys.mp hval
  refine ⟨?_, ?_⟩
  · rw [List.map_append, List.map_singleton, ← List.concat_eq_append]
    exact h.nodup.concat hnew
  · rintro ⟨v, m⟩
    have hentry := h.entry (v, m)
    by_cases hv : v = val
    · subst hv
      have hold : (v, m) ∉ numMap := fun hm => hnew (List.mem_map_of_mem hm)
      simp [hold, List.count_append, List.count_eq_zero_of_not_mem hval]
    · have hne : (v, m) ≠ (val, 1) := fun heq => hv (congrArg Prod.fst heq)
      rw [List.mem_append, List.mem_singleton, or_iff_left hne, hentry, count_concat_of_ne hv,
        List.mem_append, List.mem_singleton, or_iff_left hv]

/-- **Step lemma**: one more value is counted. -/
theorem Counts.increment (h : Counts vec numMap) (hcount : (vec.count val : ℤ) ≠ INT_MAX) :
    ∃ numMap', increment val numMap = some numMap' ∧ Counts (vec ++ [val]) numMap' := by
  by_cases hval : val ∈ vec
  · obtain ⟨front, back, rfl, hfront, hback⟩ := h.split hval
    exact ⟨_, increment_found hfront hcount, h.increment_old hfront hback⟩
  · exact ⟨_, BigdataInTopK.increment_new (mt h.mem_keys.mp hval), h.increment_new hval⟩

/-- The counters are exact as long as none of them overflows. -/
theorem countValues_counts (hvec : ∀ v, (vec.count v : ℤ) ≤ INT_MAX) :
    ∃ numMap, countValues vec = some numMap ∧ Counts vec numMap := by
  induction vec using List.reverseRecOn with
  | nil => exact ⟨[], rfl, .nil⟩
  | append_singleton vec val ih =>
    have hle : ∀ v, vec.count v ≤ (vec ++ [val]).count v := by
      intro v
      rw [List.count_append]
      exact Nat.le_add_right _ _
    have hlast := hvec val
    rw [List.count_append, List.count_singleton_self] at hlast
    obtain ⟨numMap, hcount, hcounts⟩ := ih fun v => by
      have hv := hvec v
      have hle := hle v
      omega
    have hroom : (vec.count val : ℤ) ≠ INT_MAX := by omega
    obtain ⟨numMap', hincrement, hcounts'⟩ := hcounts.increment hroom
    refine ⟨numMap', ?_, hcounts'⟩
    rw [countValues] at hcount ⊢
    rw [List.foldlM_append, hcount]
    simpa using hincrement

/-! ## The queue -/

theorem fill_eq (order : List P) {k : ℕ} (hk : k ≤ limit) :
    (fill Q order k minheap).1 = order.drop (limit - k) ∧
      Q.elems (fill Q order k minheap).2 = Q.elems minheap + ↑(order.take (limit - k)) := by
  induction order generalizing k minheap with
  | nil => simp [fill]
  | cons it order ih =>
    rw [fill]
    split
    · next hlt =>
      obtain ⟨hrest, helems⟩ := @ih (Q.push it minheap) (k + 1) hlt
      have hsucc : limit - k = limit - (k + 1) + 1 := by omega
      rw [hrest, helems, Q.elems_push, hsucc, List.drop_succ_cons, List.take_succ_cons,
        ← Multiset.cons_coe, Multiset.cons_add, Multiset.add_cons]
      exact ⟨rfl, rfl⟩
    · next hge =>
      obtain rfl : k = limit := by omega
      simp

/-- The loop keeps the entries with the largest numbers of those it has come to. -/
theorem compare_dominates (order : List P) (hne : Q.elems minheap ≠ 0)
    (h : Dominates Prod.snd (Q.elems minheap) dropped) :
    ∃ minheap' dropped', compare Q order minheap = some minheap' ∧
      Q.elems minheap' + dropped' = Q.elems minheap + dropped + ↑order ∧
      (Q.elems minheap').card = (Q.elems minheap).card ∧
      Dominates Prod.snd (Q.elems minheap') dropped' := by
  induction order generalizing minheap dropped with
  | nil => exact ⟨minheap, dropped, rfl, (Multiset.add_zero _).symm, rfl, h⟩
  | cons it order ih =>
    obtain ⟨top, htop⟩ := Q.exists_top minheap hne
    have hpop := Q.elems_pop minheap top htop
    have hleast := Q.top_le minheap top htop
    rw [compare, htop]
    dsimp only
    split
    · next hlt =>
      have hpush : Q.elems (Q.push it (Q.pop minheap)) = it ::ₘ Q.elems (Q.pop minheap) :=
        Q.elems_push it _
      have hdominates := h.replace hpop hleast hlt
      rw [← hpush] at hdominates
      obtain ⟨minheap', dropped', hcompare, hsum, hcard, hdominates'⟩ :=
        ih (hpush ▸ Multiset.cons_ne_zero) hdominates
      refine ⟨minheap', dropped', hcompare, ?_, ?_, hdominates'⟩
      · rw [hsum, hpush, ← hpop, ← Multiset.cons_coe]
        simp only [Multiset.cons_add, Multiset.add_cons]
        exact Multiset.cons_swap _ _ _
      · rw [hcard, hpush, ← hpop, Multiset.card_cons, Multiset.card_cons]
    · next hle =>
      have hdominates := h.skip hleast (not_lt.mp hle)
      obtain ⟨minheap', dropped', hcompare, hsum, hcard, hdominates'⟩ := ih hne hdominates
      refine ⟨minheap', dropped', hcompare, ?_, hcard, hdominates'⟩
      rw [hsum, ← Multiset.cons_coe]
      simp only [Multiset.cons_add, Multiset.add_cons]

/-- Both loops: the entries that are kept, and those that are dropped. -/
theorem topK_dominates (Q : PriorityQueue P Prod.snd) (order : List P) :
    ∃ minheap dropped, topK Q order = some minheap ∧ Q.elems minheap + dropped = ↑order ∧
      (Q.elems minheap).card = min limit order.length ∧
      Dominates Prod.snd (Q.elems minheap) dropped := by
  obtain ⟨hrest, helems⟩ := @fill_eq Q Q.empty order 0 (Nat.zero_le _)
  rw [Q.elems_empty, Multiset.zero_add, Nat.sub_zero] at helems
  rw [Nat.sub_zero] at hrest
  have hcard : (Q.elems (fill Q order 0 Q.empty).2).card = min limit order.length := by
    rw [helems, Multiset.coe_card, List.length_take]
  by_cases horder : order = []
  · subst horder
    exact ⟨Q.empty, 0, rfl, (Multiset.add_zero _).trans helems, hcard, Dominates.nothing _ _⟩
  · have hne : Q.elems (fill Q order 0 Q.empty).2 ≠ 0 := by
      intro hzero
      have hpos := List.length_pos_iff.mpr horder
      rw [hzero, Multiset.card_zero, limit] at hcard
      omega
    obtain ⟨minheap, dropped, hcompare, hsum, hsize, hdominates⟩ :=
      compare_dominates (order.drop limit) hne (Dominates.nothing _ _)
    refine ⟨minheap, dropped, ?_, ?_, hsize.trans hcard, hdominates⟩
    · rw [topK, hrest, hcompare]
    · rw [hsum, helems, Multiset.add_zero, Multiset.coe_add, List.take_append_drop]

theorem frequent_of_topK (h : Counts vec numMap) (horder : order.Perm numMap)
    (hsum : kept + dropped = ↑order) (hcard : kept.card = min limit order.length)
    (hdominates : Dominates Prod.snd kept dropped) : Frequent vec kept := by
  have hentry : ∀ p, p ∈ kept + dropped ↔ p.1 ∈ vec ∧ p.2 = vec.count p.1 := by
    intro p
    rw [hsum, Multiset.mem_coe, horder.mem_iff, h.entry]
  have hexact : ∀ p ∈ kept, p.1 ∈ vec ∧ p.2 = vec.count p.1 := fun p hp =>
    (hentry p).mp (Multiset.mem_add.mpr (Or.inl hp))
  have hkeys : ((kept + dropped).map Prod.fst).Nodup := by
    rw [hsum, Multiset.map_coe, Multiset.coe_nodup, (horder.map Prod.fst).nodup_iff]
    exact h.nodup
  refine ⟨?_, ?_, hexact, fun v hv p hp => ?_⟩
  · have hperm : (numMap.map Prod.fst).Perm vec.dedup := by
      apply (List.perm_ext_iff_of_nodup h.nodup (List.nodup_dedup vec)).mpr
      intro v
      rw [h.mem_keys, List.mem_dedup]
    rw [hcard, horder.length_eq, ← hperm.length_eq, List.length_map]
  · rw [Multiset.map_add] at hkeys
    exact (Multiset.nodup_add.mp hkeys).1
  · by_cases hvec : v ∈ vec
    · have hmem := (hentry (v, vec.count v)).mpr ⟨hvec, rfl⟩
      obtain hkept | hdropped := Multiset.mem_add.mp hmem
      · exact absurd (Multiset.mem_map_of_mem Prod.fst hkept) hv
      · exact hdominates _ hdropped p hp
    · rw [List.count_eq_zero_of_not_mem hvec, (hexact p hp).2]
      exact Int.natCast_nonneg _

/-- **The queue ends with the most frequent values**, in whatever order the map is gone through, if
every value occurs so seldom that an `int` can count it. -/
theorem minheap_frequent (Q : PriorityQueue P Prod.snd) {vec : List ℤ}
    (hvec : ∀ v, (vec.count v : ℤ) ≤ INT_MAX) :
    ∃ numMap, countValues vec = some numMap ∧ ∀ order, order.Perm numMap →
      ∃ minheap, topK Q order = some minheap ∧ Frequent vec (Q.elems minheap) := by
  obtain ⟨numMap, hcount, hcounts⟩ := countValues_counts hvec
  refine ⟨numMap, hcount, fun order horder => ?_⟩
  obtain ⟨minheap, dropped, htopK, hsum, hcard, hdominates⟩ := topK_dominates Q order
  exact ⟨minheap, htopK, frequent_of_topK hcounts horder hsum hcard hdominates⟩

/-- Two values that occur equally often. -/
theorem minheap_frequent_tie :
    ∃ numMap, countValues [5, 3, 5, 3, -1] = some numMap ∧ ∀ order, order.Perm numMap →
      ∃ minheap, topK (.sortedList Prod.snd) order = some minheap ∧
        Frequent [5, 3, 5, 3, -1] ((PriorityQueue.sortedList Prod.snd).elems minheap) :=
  minheap_frequent (.sortedList Prod.snd) fun v => by
    have hle : [5, 3, 5, 3, -1].count v ≤ 5 := List.count_le_length
    have hmax : INT_MAX = 2147483647 := by decide
    omega

theorem countValues_replicate {k : ℕ} (hk : (k : ℤ) = INT_MAX) :
    countValues (List.replicate (k + 1) v) = none := by
  have hvec : ∀ w, ((List.replicate k v).count w : ℤ) ≤ INT_MAX := by
    intro w
    have hle : (List.replicate k v).count w ≤ (List.replicate k v).length := List.count_le_length
    rw [List.length_replicate] at hle
    omega
  obtain ⟨numMap, hcount, hcounts⟩ := countValues_counts hvec
  have hmem : v ∈ List.replicate k v := by
    rw [List.mem_replicate]
    refine ⟨?_, rfl⟩
    rintro rfl
    exact absurd hk (by decide)
  obtain ⟨front, back, rfl, hfront, -⟩ := hcounts.split hmem
  rw [List.count_replicate_self, hk] at hcount
  rw [countValues] at hcount ⊢
  rw [List.replicate_succ', List.foldlM_append, hcount]
  simpa using increment_overflow hfront

/-- A value that occurs 2 ^ 31 times overflows its counter. -/
theorem countValues_overflow : countValues (List.replicate (2 ^ 31) 0) = none := by
  have hsize : 2 ^ 31 = 2147483647 + 1 := by decide
  rw [hsize]
  exact countValues_replicate (by decide)

end CppInOne.Algorithm.BigdataInTopK
