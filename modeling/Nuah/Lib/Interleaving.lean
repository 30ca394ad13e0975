import Mathlib

/-!
# Interleavings

The orders in which the events of several threads can happen, when each thread's own events
keep their order.
-/

namespace Interleaving

open List

variable {ε : Type}

variable {threads : List (List ε)} {events before after : List ε} {a b : ε}

/-- The second list takes the events of the threads, in each step the next one of a thread. -/
inductive Interleaves : List (List ε) → List ε → Prop
  | done {threads : List (List ε)} (h : ∀ t ∈ threads, t = []) : Interleaves threads []
  | step {threads : List (List ε)} {e : ε} {rest events : List ε} (i : Nat)
      (h : threads[i]? = some (e :: rest)) (hrest : Interleaves (threads.set i rest) events) :
      Interleaves threads (e :: events)

lemma flatten_set_perm {i : Nat} {e : ε} {rest : List ε} (h : threads[i]? = some (e :: rest)) :
    threads.flatten.Perm (e :: (threads.set i rest).flatten) := by
  induction threads generalizing i with
  | nil => cases h
  | cons t threads ih =>
    cases i with
    | zero =>
      cases h
      simp
    | succ i =>
      rw [set_cons_succ, flatten_cons, flatten_cons]
      exact ((ih h).append_left t).trans perm_middle

lemma Interleaves.perm (h : Interleaves threads events) : events.Perm threads.flatten := by
  induction h with
  | done h =>
    have hnil : List.flatten _ = [] := flatten_eq_nil_iff.2 h
    rw [hnil]
  | step i h _ ih => exact (ih.cons _).trans (flatten_set_perm h).symm

lemma Interleaves.sublist (h : Interleaves threads events) {t : List ε} (ht : t ∈ threads) :
    t.Sublist events := by
  induction h generalizing t with
  | done h =>
    rw [h t ht]
  | @step threads e rest events i h _ ih =>
    obtain ⟨j, hj⟩ := mem_iff_getElem?.1 ht
    by_cases hij : i = j
    · subst hij
      cases h.symm.trans hj
      have hlt := (List.getElem?_eq_some_iff.1 h).1
      exact (ih (List.mem_iff_getElem?.2 ⟨i, List.getElem?_set_self hlt⟩)).cons_cons e
    · have hmem : t ∈ threads.set i rest := by
        refine mem_iff_getElem?.2 ⟨j, ?_⟩
        rw [getElem?_set_ne hij]
        exact hj
      exact (ih hmem).cons e

lemma mem_before_of_sublist (h : List.Sublist [a, b] (before ++ b :: after))
    (hnodup : (before ++ b :: after).Nodup) :
    a ∈ before := by
  have hb : b ∉ after := (nodup_cons.1 hnodup.of_append_right).1
  obtain ⟨l₁, l₂, hl, h₁, h₂⟩ := sublist_append_iff.1 h
  cases l₁ with
  | nil =>
    simp only [nil_append] at hl
    subst hl
    exact absurd ((singleton_sublist.1 (by simpa using h₂.tail))) hb
  | cons x l₁ =>
    obtain ⟨rfl, -⟩ := cons_eq_cons.1 hl
    exact h₁.subset mem_cons_self

lemma not_mem_before_of_sublist (h : List.Sublist [a, b] (before ++ a :: after))
    (hnodup : (before ++ a :: after).Nodup) :
    b ∉ before := by
  intro hb
  obtain ⟨first, second, rfl⟩ := append_of_mem hb
  rw [append_assoc, cons_append] at h hnodup
  have ha : a ∈ first := mem_before_of_sublist h hnodup
  exact (disjoint_of_nodup_append hnodup) ha (by simp)

lemma interleaves_flatten (threads : List (List ε)) : Interleaves threads threads.flatten := by
  have key : ∀ (done threads : List (List ε)), (∀ t ∈ done, t = []) →
      Interleaves (done ++ threads) threads.flatten := by
    intro done threads
    induction threads generalizing done with
    | nil =>
      intro h
      rw [append_nil]
      exact .done h
    | cons t threads ih =>
      intro h
      induction t with
      | nil =>
        rw [append_cons]
        exact ih (done ++ [[]]) (forall_mem_append.2 ⟨h, forall_mem_singleton.2 rfl⟩)
      | cons e t iht =>
        have hget : (done ++ (e :: t) :: threads)[done.length]? = some (e :: t) := by simp
        refine .step done.length hget ?_
        rw [set_append_right _ _ le_rfl, Nat.sub_self, set_cons_zero]
        exact iht
  exact key [] threads (by simp)

end Interleaving
