import Mathlib

/-!
# Ordered maps

What an ordered map holds after an insertion, when keys that compare equal are equal.
-/

namespace OrderedMaps

open Std (TreeMap TransCmp LawfulEqCmp)

variable {α β : Type} {cmp : α → α → Ordering} [TransCmp cmp] [LawfulEqCmp cmp] [DecidableEq α]

omit [TransCmp cmp] in
lemma lawfulBEqCmp : Std.LawfulBEqCmp cmp where
  compare_eq_iff_beq {a b} := by rw [beq_iff_eq, LawfulEqCmp.compare_eq_iff_eq]

variable (t : TreeMap α β cmp)

lemma getElem?_insert_eq (k a : α) (v : β) :
    (t.insert k v)[a]? = if a = k then some v else t[a]? := by
  simp only [TreeMap.getElem?_insert, LawfulEqCmp.compare_eq_iff_eq, @eq_comm _ k]

lemma getElem?_erase_eq (k a : α) : (t.erase k)[a]? = if a = k then none else t[a]? := by
  simp only [TreeMap.getElem?_erase, LawfulEqCmp.compare_eq_iff_eq, @eq_comm _ k]

lemma getElem?_insertMany_eq_some_iff {l : List (α × β)}
    (hdistinct : l.Pairwise (fun p q => ¬ cmp p.1 q.1 = .eq)) (a : α) (v : β) :
    (t.insertMany l)[a]? = some v ↔ (a, v) ∈ l ∨ (∀ w, (a, w) ∉ l) ∧ t[a]? = some v := by
  have hbeq : Std.LawfulBEqCmp cmp := lawfulBEqCmp
  by_cases ha : ∃ w, (a, w) ∈ l
  · obtain ⟨w, hw⟩ := ha
    have hget := TreeMap.getElem?_insertMany_list_of_mem Std.ReflCmp.compare_self hdistinct hw (t := t)
    rw [hget, Option.some.injEq]
    constructor
    · rintro rfl
      exact .inl hw
    · rintro (hv | ⟨hnone, -⟩)
      · have hget' := TreeMap.getElem?_insertMany_list_of_mem Std.ReflCmp.compare_self hdistinct hv
          (t := t)
        exact Option.mem_unique hget hget'
      · exact absurd hw (hnone w)
  · have hcontains : (l.map Prod.fst).contains a = false := by
      rw [← Bool.not_eq_true, List.contains_iff_mem, List.mem_map]
      rintro ⟨⟨k, w⟩, hmem, rfl⟩
      exact ha ⟨w, hmem⟩
    rw [TreeMap.getElem?_insertMany_list_of_contains_eq_false hcontains]
    constructor
    · intro hv
      exact .inr ⟨fun w hw => ha ⟨w, hw⟩, hv⟩
    · rintro (hv | ⟨-, hv⟩)
      · exact absurd ⟨v, hv⟩ ha
      · exact hv

end OrderedMaps
