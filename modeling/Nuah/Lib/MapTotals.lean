import Nuah.Lib.OrderedMaps

/-!
# Totals over ordered maps

The sum of an amount over the entries of a map, and maps that tally amounts by key. Every
update of the map changes the total at one key.
-/

namespace MapTotals

open Std (TreeMap TransCmp LawfulEqCmp)
open OrderedMaps List

variable {α β : Type} {cmp : α → α → Ordering} [TransCmp cmp] [LawfulEqCmp cmp] [DecidableEq α]

variable {t u : TreeMap α β cmp} {k : α} {m : TreeMap α Nat cmp} {amount : α → Nat} {n : Nat}

omit [LawfulEqCmp cmp] [DecidableEq α] in
lemma nodup_toList (t : TreeMap α β cmp) : t.toList.Nodup := by
  refine List.Pairwise.imp ?_ (TreeMap.distinct_keys_toList (t := t))
  rintro p q hne rfl
  exact hne Std.ReflCmp.compare_self

omit [DecidableEq α] in
lemma toList_perm_of_getElem?_eq (h : ∀ a : α, t[a]? = u[a]?) : t.toList.Perm u.toList := by
  rw [perm_ext_iff_of_nodup (nodup_toList t) (nodup_toList u)]
  rintro ⟨a, v⟩
  rw [TreeMap.mem_toList_iff_getElem?_eq_some, TreeMap.mem_toList_iff_getElem?_eq_some, h]

lemma toList_insert_perm_erase (t : TreeMap α β cmp) (k : α) (v : β) :
    (t.insert k v).toList.Perm ((k, v) :: (t.erase k).toList) := by
  have hfresh : (k, v) ∉ (t.erase k).toList := by
    rw [TreeMap.mem_toList_iff_getElem?_eq_some, getElem?_erase_eq, if_pos rfl]
    exact nofun
  rw [perm_ext_iff_of_nodup (nodup_toList _) (nodup_cons.2 ⟨hfresh, nodup_toList _⟩)]
  rintro ⟨a, w⟩
  rw [mem_cons, TreeMap.mem_toList_iff_getElem?_eq_some,
    TreeMap.mem_toList_iff_getElem?_eq_some, getElem?_insert_eq, getElem?_erase_eq]
  by_cases h : a = k
  · subst h
    simp [eq_comm]
  · simp [h]

def total (t : TreeMap α β cmp) (f : α → β → Nat) : Nat :=
  (t.toList.map fun p => f p.1 p.2).sum

omit [DecidableEq α] in
lemma total_congr_map (h : ∀ a : α, t[a]? = u[a]?) (f : α → β → Nat) : total t f = total u f :=
  ((toList_perm_of_getElem?_eq h).map _).sum_eq

lemma total_insert (t : TreeMap α β cmp) (k : α) (v : β) (f : α → β → Nat) :
    total (t.insert k v) f = f k v + total (t.erase k) f := by
  unfold total
  rw [((toList_insert_perm_erase t k v).map _).sum_eq, map_cons, sum_cons]

lemma total_of_getElem?_eq_some {v : β} (h : t[k]? = some v) (f : α → β → Nat) :
    total t f = f k v + total (t.erase k) f := by
  rw [← total_insert]
  refine total_congr_map (fun a => ?_) f
  rw [getElem?_insert_eq]
  split
  case isTrue ha => rw [ha, h]
  case isFalse => rfl

lemma total_erase_of_getElem?_eq_none (h : t[k]? = none) (f : α → β → Nat) :
    total (t.erase k) f = total t f := by
  refine total_congr_map (fun a => ?_) f
  rw [getElem?_erase_eq]
  split
  case isTrue ha => rw [ha, h]
  case isFalse => rfl

omit [DecidableEq α] in
lemma total_eq_zero {f : α → β → Nat} (h : ∀ (a : α) (v : β), t[a]? = some v → f a v = 0) :
    total t f = 0 := by
  refine sum_eq_zero fun n hn => ?_
  obtain ⟨⟨a, v⟩, hmem, rfl⟩ := mem_map.1 hn
  exact h a v (TreeMap.mem_toList_iff_getElem?_eq_some.1 hmem)

def paidTo (l : List (α × Nat)) (k : α) : Nat :=
  (l.map fun p => if p.1 = k then p.2 else 0).sum

lemma paidTo_cons (p : α × Nat) (l : List (α × Nat)) (k : α) :
    paidTo (p :: l) k = (if p.1 = k then p.2 else 0) + paidTo l k := by
  rw [paidTo, map_cons, sum_cons, ← paidTo]

lemma paidTo_toList (t : TreeMap α Nat cmp) (k : α) : paidTo t.toList k = (t[k]?).getD 0 := by
  have hrest : total (t.erase k) (fun a n => if a = k then n else 0) = 0 := by
    refine total_eq_zero fun a v hget => if_neg ?_
    rintro rfl
    rw [getElem?_erase_eq, if_pos rfl] at hget
    exact absurd hget nofun
  change total t (fun a n => if a = k then n else 0) = _
  rcases hget : t[k]? with _ | n
  · rw [← total_erase_of_getElem?_eq_none hget, hrest, Option.getD_none]
  · rw [total_of_getElem?_eq_some hget, hrest, if_pos rfl, Option.getD_some, Nat.add_zero]

/-- `*entry(k).or_default() += n`. -/
def addTo (m : TreeMap α Nat cmp) (k : α) (n : Nat) : TreeMap α Nat cmp :=
  m.insert k ((m[k]?).getD 0 + n)

lemma getD_addTo (m : TreeMap α Nat cmp) (k a : α) (n : Nat) :
    ((addTo m k n)[a]?).getD 0 = (m[a]?).getD 0 + if k = a then n else 0 := by
  unfold addTo
  rw [getElem?_insert_eq]
  by_cases h : a = k
  · subst h
    simp
  · rw [if_neg h, if_neg (Ne.symm h), Nat.add_zero]

lemma getD_foldl_addTo (l : List (α × Nat)) (m : TreeMap α Nat cmp) (a : α) :
    ((l.foldl (fun m p => addTo m p.1 p.2) m)[a]?).getD 0 = (m[a]?).getD 0 + paidTo l a := by
  induction l generalizing m with
  | nil => simp [paidTo]
  | cons p l ih =>
    rw [foldl_cons, ih, getD_addTo, paidTo_cons, Nat.add_assoc]

/-- The map holds the amount of every key that has one, and nothing for the others. -/
def Tallies (m : TreeMap α Nat cmp) (amount : α → Nat) : Prop :=
  ∀ k : α, m[k]? = if amount k = 0 then none else some (amount k)

omit [TransCmp cmp] [LawfulEqCmp cmp] [DecidableEq α] in
lemma Tallies.getD (h : Tallies m amount) (k : α) : (m[k]?).getD 0 = amount k := by
  rw [h k]
  by_cases h0 : amount k = 0
  · rw [if_pos h0, h0, Option.getD_none]
  · rw [if_neg h0, Option.getD_some]

lemma Tallies.addTo (h : Tallies m amount) (hn : n ≠ 0) :
    Tallies (addTo m k n) (fun a => amount a + if k = a then n else 0) := by
  intro a
  unfold MapTotals.addTo
  rw [getElem?_insert_eq, h.getD]
  by_cases ha : a = k
  · subst ha
    simp [hn]
  · simpa [ha, Ne.symm ha] using h a

lemma Tallies.foldl_addTo {l : List (α × Nat)} (hl : ∀ p ∈ l, p.2 ≠ 0) (h : Tallies m amount) :
    Tallies (l.foldl (fun m p => MapTotals.addTo m p.1 p.2) m)
      (fun a => amount a + paidTo l a) := by
  induction l generalizing m amount with
  | nil => simpa [paidTo] using h
  | cons p l ih =>
    have hp : p.2 ≠ 0 := hl p mem_cons_self
    have hrest := ih (fun q hq => hl q (mem_cons_of_mem p hq)) (h.addTo (k := p.1) hp)
    simpa only [foldl_cons, paidTo_cons, Nat.add_assoc] using hrest

section

variable (h : Tallies m (fun a => amount a + if k = a then n else 0))

include h

lemma Tallies.insert_rest (hk : amount k ≠ 0) : Tallies (m.insert k (amount k)) amount := by
  intro a
  rw [getElem?_insert_eq]
  by_cases ha : a = k
  · subst ha
    rw [if_pos rfl, if_neg hk]
  · simpa [ha, Ne.symm ha] using h a

lemma Tallies.erase_rest (hk : amount k = 0) : Tallies (m.erase k) amount := by
  intro a
  rw [getElem?_erase_eq]
  by_cases ha : a = k
  · subst ha
    rw [if_pos rfl, if_pos hk]
  · simpa [ha, Ne.symm ha] using h a

end

end MapTotals
