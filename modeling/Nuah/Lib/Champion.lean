import Mathlib

/-!
# The element with the greatest score

`IsChampion score l x` says that `x` has the greatest score in the list. A loop that keeps
the better of two elements finds it. `DescendsTo` follows the champions down a tree.
-/

namespace Champion

variable {α β : Type*} [LinearOrder β] {score score' : α → β} {l l' : List α} {x y : α}

def IsChampion (score : α → β) (l : List α) (x : α) : Prop := x ∈ l ∧ ∀ y ∈ l, score y ≤ score x

lemma IsChampion.singleton (score : α → β) (x : α) : IsChampion score [x] x :=
  ⟨List.mem_singleton_self x, by simp⟩

lemma IsChampion.snoc_of_le (h : IsChampion score l x) (hle : score x ≤ score y) :
    IsChampion score (l ++ [y]) y :=
  ⟨by simp, List.forall_mem_append.2 ⟨fun z hz => (h.2 z hz).trans hle, by simp⟩⟩

lemma IsChampion.snoc_of_ge (h : IsChampion score l x) (hle : score y ≤ score x) :
    IsChampion score (l ++ [y]) x :=
  ⟨List.mem_append_left _ h.1, List.forall_mem_append.2 ⟨h.2, by simpa using hle⟩⟩

lemma IsChampion.unique_of_injOn (hinj : ∀ a ∈ l, ∀ b ∈ l, score a = score b → a = b)
    (hx : IsChampion score l x) (hy : IsChampion score l y) : x = y :=
  hinj x hx.1 y hy.1 (le_antisymm (hy.2 x hx.1) (hx.2 y hy.1))

lemma IsChampion.unique (hinj : Function.Injective score) (hx : IsChampion score l x)
    (hy : IsChampion score l y) : x = y :=
  hx.unique_of_injOn (fun _ _ _ _ heq => hinj heq) hy

section

variable (h : IsChampion score l x)

include h

lemma IsChampion.congr (heq : ∀ y ∈ l, score y = score' y) : IsChampion score' l x := by
  refine ⟨h.1, ?_⟩
  intro y hy
  rw [← heq y hy, ← heq x h.1]
  exact h.2 y hy

lemma IsChampion.of_mem_iff (heq : ∀ y, y ∈ l' ↔ y ∈ l) :
    IsChampion score l' x :=
  ⟨(heq x).2 h.1, fun y hy => h.2 y ((heq y).1 hy)⟩

lemma IsChampion.of_raised (hy : y ∈ l)
    (heq : ∀ z ∈ l, z ≠ y → score z = score' z) (hnot : ¬ IsChampion score' l y)
    (hle : score y ≤ score' y) : IsChampion score' l x ∧ x ≠ y := by
  have hxy : x ≠ y := by
    rintro rfl
    apply hnot
    refine ⟨hy, ?_⟩
    intro z hz
    by_cases hzx : z = x
    · rw [hzx]
    · rw [← heq z hz hzx]
      exact (h.2 z hz).trans hle
  refine ⟨⟨h.1, ?_⟩, hxy⟩
  -- someone beats the raised element, and the old champion beats that one
  have hbeaten : ∃ z ∈ l, score' y < score' z := by
    by_contra hall
    push Not at hall
    exact hnot ⟨hy, hall⟩
  obtain ⟨z, hz, hlt⟩ := hbeaten
  have hzy : z ≠ y := by
    rintro rfl
    exact lt_irrefl _ hlt
  intro w hw
  by_cases hwy : w = y
  · rw [hwy]
    calc score' y ≤ score' z := hlt.le
      _ = score z := (heq z hz hzy).symm
      _ ≤ score x := h.2 z hz
      _ = score' x := heq x h.1 hxy
  · rw [← heq w hw hwy, ← heq x h.1 hxy]
    exact h.2 w hw

lemma IsChampion.of_inserted (hmem : ∀ z, z ∈ l' ↔ z = y ∨ z ∈ l)
    (hnot : ¬ IsChampion score l' y) : IsChampion score l' x := by
  have hbeaten : ∃ z ∈ l', score y < score z := by
    by_contra hall
    push Not at hall
    exact hnot ⟨(hmem y).2 (.inl rfl), hall⟩
  obtain ⟨z, hz, hlt⟩ := hbeaten
  have hzl : z ∈ l := by
    rcases (hmem z).1 hz with rfl | hzl
    · exact absurd hlt (lt_irrefl _)
    · exact hzl
  refine ⟨(hmem x).2 (.inr h.1), ?_⟩
  intro w hw
  rcases (hmem w).1 hw with rfl | hwl
  · exact hlt.le.trans (h.2 z hzl)
  · exact h.2 w hwl

end

/-- Descending from a node into the child with the greatest score, again and again, until
there is no child. -/
inductive DescendsTo (children : α → List α) (score : α → β) : α → α → Prop
  | stop {n : α} (hnil : children n = []) : DescendsTo children score n n
  | descend {n c m : α} (hc : IsChampion score (children n) c) (hd : DescendsTo children score c m) :
      DescendsTo children score n m

variable {children children' : α → List α} {n : α}

lemma DescendsTo.unique (hinj : Function.Injective score) (hx : DescendsTo children score n x)
    (hy : DescendsTo children score n y) : x = y := by
  induction hx with
  | stop hnil =>
    cases hy with
    | stop _ => rfl
    | descend hc _ => exact absurd hc.1 (by simp [hnil])
  | descend hc _ ih =>
    cases hy with
    | stop hnil => exact absurd hc.1 (by simp [hnil])
    | descend hc' hd' => exact ih (hc.unique hinj hc' ▸ hd')

lemma DescendsTo.congr (h : DescendsTo children score n x) (hchildren : ∀ m, children' m = children m)
    (hscore : ∀ m, score' m = score m) : DescendsTo children' score' n x := by
  induction h with
  | stop hnil => exact .stop ((hchildren _).trans hnil)
  | @descend m c _ hc _ ih =>
    refine .descend (hchildren m ▸ hc.congr (fun y _ => (hscore y).symm)) ih

end Champion
