import Mathlib.Data.List.Basic

/-!
# Traces that are justified by their past

A rule `J pre e` says whether the event `e` may happen after the events `pre`. A trace is
justified when every event of it may happen after those before it. "At most once", "never
after" and "only after" are rules of this kind, and an extension of a justified trace has
to be checked at its new events only.
-/

namespace Trace

variable {ε : Type*} {J : List ε → ε → Prop} {t s : List ε} {e : ε}

/-- Every event of `t` may happen after the events before it. -/
def Justified (J : List ε → ε → Prop) (t : List ε) : Prop :=
  ∀ pre e post, t = pre ++ e :: post → J pre e

theorem justified_nil : Justified J [] := by
  intro pre e post h
  simp at h

theorem Justified.concat (h : Justified J t) (he : J t e) : Justified J (t ++ [e]) := by
  intro pre e' post heq
  obtain rfl | ⟨post', last, rfl⟩ := List.eq_nil_or_concat post
  · obtain ⟨rfl, hlast⟩ := List.append_inj' heq rfl
    rwa [← List.singleton_inj.mp hlast]
  · have hsplit : t ++ [e] = (pre ++ e' :: post') ++ [last] := by
      simpa [List.append_assoc] using heq
    exact h pre e' post' (List.append_inj' hsplit rfl).1

/-- A part at the front of a justified trace is justified. -/
theorem Justified.left (h : Justified J (t ++ s)) : Justified J t := by
  intro pre e post heq
  exact h pre e (post ++ s) (by rw [heq, List.append_assoc, List.cons_append])

/-- Put an event into a justified trace whose later events do not mind it. -/
theorem Justified.insert (h : Justified J (t ++ s)) (he : J t e)
    (hlater : ∀ pre, ∀ e' ∈ s, J (t ++ pre) e' → J (t ++ e :: pre) e') :
    Justified J (t ++ e :: s) := by
  intro pre e' post heq
  obtain ⟨mid, rfl, hmid⟩ | ⟨mid, rfl, hmid⟩ := List.append_eq_append_iff.mp heq
  · cases mid with
    | nil =>
      obtain ⟨rfl, -⟩ := List.cons.inj hmid
      simpa using he
    | cons x mid =>
      obtain ⟨rfl, rfl⟩ := List.cons.inj hmid
      exact hlater mid e' (by simp) (h (t ++ mid) e' post (by simp))
  · cases mid with
    | nil =>
      obtain ⟨rfl, -⟩ := List.cons.inj hmid
      simpa using he
    | cons x mid =>
      obtain ⟨rfl, rfl⟩ := List.cons.inj hmid
      exact h pre e' (mid ++ s) (by simp)

/-- Extend a justified trace by events that may happen where they stand. -/
theorem Justified.append (h : Justified J t)
    (hs : ∀ pre e post, s = pre ++ e :: post → J (t ++ pre) e) : Justified J (t ++ s) := by
  intro pre e post heq
  obtain ⟨mid, rfl, hmid⟩ | ⟨mid, rfl, hmid⟩ := List.append_eq_append_iff.mp heq
  · exact hs mid e post hmid
  · cases mid with
    | nil => simpa using hs [] e post hmid.symm
    | cons x mid =>
      obtain ⟨rfl, rfl⟩ := List.cons.inj hmid
      exact h pre e mid rfl

/-- Extend a justified trace by events that need no particular past. -/
theorem Justified.append_free (h : Justified J t) (hs : ∀ e ∈ s, ∀ pre, J pre e) :
    Justified J (t ++ s) := by
  induction s generalizing t with
  | nil => simpa using h
  | cons e s ih =>
    have hstep : Justified J (t ++ [e]) := h.concat (hs e List.mem_cons_self t)
    have hrest := ih hstep fun e' he' => hs e' (List.mem_cons_of_mem e he')
    rwa [List.append_assoc] at hrest

/-- Extend a justified trace by blocks that are justified behind any past. -/
theorem Justified.append_flatMap {α : Type*} {f : α → List ε} {xs : List α} (h : Justified J t)
    (hs : ∀ x ∈ xs, ∀ past pre e post, f x = pre ++ e :: post → J (past ++ pre) e) :
    Justified J (t ++ xs.flatMap f) := by
  induction xs generalizing t with
  | nil => rwa [List.flatMap_nil, List.append_nil]
  | cons x xs ih =>
    have hblock : Justified J (t ++ f x) := h.append (hs x List.mem_cons_self t)
    rw [List.flatMap_cons, ← List.append_assoc]
    exact ih hblock fun x' hx' => hs x' (List.mem_cons_of_mem x hx')

/-- A trace whose events need no particular past is justified. -/
theorem justified_of_free (hs : ∀ e ∈ s, ∀ pre, J pre e) : Justified J s :=
  justified_nil.append_free hs

end Trace
