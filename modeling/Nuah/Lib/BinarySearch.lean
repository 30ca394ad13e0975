import Mathlib

/-!
# Binary search

What the halving search of a slice finds when its comparison does not decrease: a place where it
answers `eq`, or the place that parts the smaller entries from the greater ones.
-/

namespace BinarySearch

variable {α : Type}

/-- The search in the window from `left` to `right`. -/
def searchFrom (cmp : α → Ordering) (l : List α) (left right : Nat) : Except Nat Nat :=
  if left < right then
    let mid := left + (right - left) / 2
    match l[mid]? with
    | none => .error left
    | some a =>
      match cmp a with
      | .lt => searchFrom cmp l (mid + 1) right
      | .gt => searchFrom cmp l left mid
      | .eq => .ok mid
  else .error left
termination_by right - left

/-- `slice::binary_search_by`: the place of the entry, or the place to insert it at. -/
def search (cmp : α → Ordering) (l : List α) : Except Nat Nat := searchFrom cmp l 0 l.length

def Ordered (cmp : α → Ordering) (l : List α) : Prop :=
  l.Pairwise fun a b => (cmp b = .lt → cmp a = .lt) ∧ (cmp a = .gt → cmp b = .gt)

/-- `i` parts the smaller entries from the greater ones. -/
structure Parts (cmp : α → Ordering) (l : List α) (i : Nat) : Prop where
  le : i ≤ l.length
  before : ∀ j a, j < i → l[j]? = some a → cmp a = .lt
  after : ∀ j a, i ≤ j → l[j]? = some a → cmp a = .gt

variable {cmp : α → Ordering} {l : List α} {i : Nat}

lemma rel_of_le {r : α → α → Prop} (h : l.Pairwise r) (hrefl : ∀ a, r a a) {j : Nat} {a b : α}
    (hij : i ≤ j) (ha : l[i]? = some a) (hb : l[j]? = some b) : r a b := by
  obtain ⟨hi, rfl⟩ := List.getElem?_eq_some_iff.1 ha
  obtain ⟨hj, rfl⟩ := List.getElem?_eq_some_iff.1 hb
  rcases hij.lt_or_eq with hij | rfl
  · exact List.pairwise_iff_getElem.1 h i j hi hj hij
  · exact hrefl _

section

variable (h : Ordered cmp l)

include h

lemma searchFrom_spec {left right : Nat} (hle : left ≤ right)
    (hright : right ≤ l.length) (hbefore : ∀ j a, j < left → l[j]? = some a → cmp a = .lt)
    (hafter : ∀ j a, right ≤ j → l[j]? = some a → cmp a = .gt) :
    (∃ i a, searchFrom cmp l left right = .ok i ∧ l[i]? = some a ∧ cmp a = .eq) ∨
      ∃ i, searchFrom cmp l left right = .error i ∧ Parts cmp l i := by
  fun_induction searchFrom cmp l left right with
  | case1 left right hlt mid hnone =>
    have hmid : mid < l.length := by omega
    rw [List.getElem?_eq_getElem hmid] at hnone
    cases hnone
  | case2 left right hlt mid a ha hcmp ih =>
    refine ih (by omega) hright (fun j b hj hb => ?_) hafter
    exact (rel_of_le h (fun _ => ⟨id, id⟩) (Nat.le_of_lt_succ hj) hb ha).1 hcmp
  | case3 left right hlt mid a ha hcmp ih =>
    refine ih (by omega) (by omega) hbefore fun j b hj hb => ?_
    exact (rel_of_le h (fun _ => ⟨id, id⟩) hj ha hb).2 hcmp
  | case4 left right hlt mid a ha hcmp => exact .inl ⟨mid, a, rfl, ha, hcmp⟩
  | case5 left right hlt =>
    obtain rfl : left = right := by omega
    exact .inr ⟨left, rfl, hright, hbefore, hafter⟩

lemma search_spec :
    (∃ i a, search cmp l = .ok i ∧ l[i]? = some a ∧ cmp a = .eq) ∨
      ∃ i, search cmp l = .error i ∧ Parts cmp l i := by
  refine searchFrom_spec h (Nat.zero_le _) le_rfl (fun j _ hj => absurd hj (Nat.not_lt_zero j)) ?_
  intro j a hj ha
  rw [List.getElem?_eq_none hj] at ha
  cases ha

end

end BinarySearch
