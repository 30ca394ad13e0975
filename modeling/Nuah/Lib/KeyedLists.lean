import Mathlib

/-!
# Lists in key order

An ordered map as the list of its pairs, with increasing keys.
-/

namespace KeyedLists

open List

/-- In a list in which an element that satisfies the predicate has only such ones before it. -/
lemma takeWhile_eq_filter {γ : Type} {p : γ → Bool} {l : List γ}
    (h : l.Pairwise fun a b => p b = true → p a = true) : l.takeWhile p = l.filter p := by
  induction l with
  | nil => rfl
  | cons a l ih =>
    obtain ⟨ha, hl⟩ := pairwise_cons.1 h
    by_cases hp : p a = true
    · rw [takeWhile_cons_of_pos hp, filter_cons_of_pos hp, ih hl]
    · rw [takeWhile_cons_of_neg hp, filter_cons_of_neg hp]
      exact (filter_eq_nil_iff.2 fun b hb hpb => hp (ha b hb hpb)).symm

variable {α β : Type} [LinearOrder α]

def Sorted (l : List (α × β)) : Prop := l.Pairwise fun p q => p.1 < q.1

/-- The pair takes its place in the order, or that of the pair with its key. -/
def insert (key : α) (value : β) (l : List (α × β)) : List (α × β) :=
  l.filter (·.1 < key) ++ (key, value) :: l.filter (key < ·.1)

variable {l : List (α × β)} {p q : α × β} {key : α} {value : β}

lemma mem_insert : p ∈ insert key value l ↔ p = (key, value) ∨ p ∈ l ∧ p.1 ≠ key := by
  simp only [insert, mem_append, mem_cons, mem_filter, decide_eq_true_eq, lt_or_lt_iff_ne.symm]
  tauto

namespace Sorted

section

variable (h : Sorted l)

include h

lemma filter (keep : α × β → Bool) : Sorted (l.filter keep) :=
  List.Pairwise.filter keep h

lemma insert (key : α) (value : β) : Sorted (insert key value l) := by
  refine pairwise_append.2 ⟨h.filter _, pairwise_cons.2 ⟨?_, h.filter _⟩, ?_⟩
  · intro q hq
    exact of_decide_eq_true (mem_filter.1 hq).2
  · intro p hp q hq
    have hlow := of_decide_eq_true (mem_filter.1 hp).2
    rcases mem_cons.1 hq with rfl | hq
    · exact hlow
    · exact hlow.trans (of_decide_eq_true (mem_filter.1 hq).2)

lemma keys_nodup : (l.map Prod.fst).Nodup :=
  pairwise_map.2 (List.Pairwise.imp ne_of_lt h)

lemma eq_of_key_eq (hp : p ∈ l) (hq : q ∈ l) (hkey : p.1 = q.1) : p = q :=
  inj_on_of_nodup_map h.keys_nodup hp hq hkey

lemma getLast?_eq_some_iff : l.getLast? = some p ↔ p ∈ l ∧ ∀ q ∈ l, q.1 ≤ p.1 := by
  have hlast : ∀ p, l.getLast? = some p → p ∈ l ∧ ∀ q ∈ l, q.1 ≤ p.1 := by
    intro p hp
    obtain ⟨front, rfl⟩ := List.getLast?_eq_some_iff.1 hp
    refine ⟨List.mem_append_right _ List.mem_cons_self, fun q hq => ?_⟩
    rcases List.mem_append.1 hq with hq | hq
    · exact ((pairwise_append.1 h).2.2 q hq p mem_cons_self).le
    · exact (congrArg Prod.fst (mem_singleton.1 hq)).le
  constructor
  · exact hlast p
  · rintro ⟨hmem, hmax⟩
    cases hget : l.getLast? with
    | none =>
      rw [getLast?_eq_none_iff.1 hget] at hmem
      cases hmem
    | some q =>
      obtain ⟨hq, hqmax⟩ := hlast q hget
      rw [h.eq_of_key_eq hq hmem (le_antisymm (hmax q hq) (hqmax p hmem))]

lemma find?_eq_some_iff : l.find? (·.1 = key) = some p ↔ p ∈ l ∧ p.1 = key := by
  constructor
  · intro hp
    have hkey := find?_some hp
    exact ⟨mem_of_find?_eq_some hp, of_decide_eq_true hkey⟩
  · rintro ⟨hmem, hkey⟩
    cases hfind : l.find? (·.1 = key) with
    | none => exact absurd (decide_eq_true hkey) (find?_eq_none.1 hfind p hmem)
    | some q =>
      have hq := find?_some hfind
      rw [h.eq_of_key_eq (mem_of_find?_eq_some hfind) hmem
        ((of_decide_eq_true hq).trans hkey.symm)]

end

end Sorted

lemma insert_of_lt (h : ∀ p ∈ l, p.1 < key) : insert key value l = l ++ [(key, value)] := by
  have hlow : l.filter (·.1 < key) = l := filter_eq_self.2 fun p hp => decide_eq_true (h p hp)
  have hhigh : l.filter (key < ·.1) = [] :=
    filter_eq_nil_iff.2 fun p hp => by simpa using (h p hp).le
  rw [insert, hlow, hhigh]

lemma foldl_insert_append {acc : List (α × β)} (h : Sorted (acc ++ l)) :
    l.foldl (fun acc p => insert p.1 p.2 acc) acc = acc ++ l := by
  induction l generalizing acc with
  | nil => rw [foldl_nil, append_nil]
  | cons p l ih =>
    have hlt : ∀ q ∈ acc, q.1 < p.1 := fun q hq =>
      (pairwise_append.1 h).2.2 q hq p mem_cons_self
    have hassoc : acc ++ p :: l = acc ++ [p] ++ l := (append_cons acc p l)
    rw [foldl_cons, insert_of_lt hlt, hassoc]
    exact ih (hassoc ▸ h)

end KeyedLists
