import Nuah.BankForks

/-!
# The graph of the bank forks

The reverse index has an entry for a slot exactly as long as the slot is a bank or an
ancestor of one. Insertions, removals in any order and prunings keep it so, and `relationship`
reads the ancestry of the banks off it.
-/

namespace Nuah.Proofs

open Std (TreeMap)
open OrderedMaps BankForks List Option

variable {banks : TreeMap Slot ForkBank} {o : Option (Finset Slot)} {parents : List Slot}
  {root : Slot}

variable {f : BankForks} {p s : Slot} {bank : ForkBank}

/-- The bank `s` is in memory and has `p` as a proper ancestor. -/
def Below (banks : TreeMap Slot ForkBank) (p s : Slot) : Prop :=
  ∃ bank, banks[s]? = some bank ∧ p ∈ bank.properAncestors

def IndexEntry (banks : TreeMap Slot ForkBank) (p : Slot) : Option (Finset Slot) → Prop
  | none => banks[p]? = none ∧ ∀ s, ¬ Below banks p s
  | some entry => (banks[p]? ≠ none ∨ entry ≠ ∅) ∧ ∀ s, s ∈ entry ↔ Below banks p s

structure Consistent (f : BankForks) : Prop where
  slot : ∀ (s : Slot) bank, f.banks[s]? = some bank → bank.slot = s
  entry : ∀ p : Slot, IndexEntry f.banks p f.descendants[p]?

lemma Below.lt (hf : Consistent f) (h : Below f.banks p s) : p < s := by
  obtain ⟨bank, hbank, hp⟩ := h
  exact hf.slot s bank hbank ▸ bank.lt_slot p hp

lemma IndexEntry.mem_getD (h : IndexEntry banks p o) : s ∈ o.getD ∅ ↔ Below banks p s := by
  cases o with
  | none => exact iff_of_false (Finset.notMem_empty s) (h.2 s)
  | some entry => exact h.2 s

lemma Consistent.index (hf : Consistent f) (hp : f.banks[p]? ≠ none) :
    ∃ entry, f.descendants[p]? = some entry ∧ ∀ s, s ∈ entry ↔ Below f.banks p s := by
  have hentry := hf.entry p
  rcases hget : f.descendants[p]? with _ | entry <;> rw [hget] at hentry
  · exact absurd hentry.1 hp
  · exact ⟨entry, rfl, hentry.2⟩

/-- The entry that is left of some slots below `p`: none if there are none and `p` is no bank. -/
def entryOf (banks : TreeMap Slot ForkBank) (p : Slot) (entry : Finset Slot) : Option (Finset Slot) :=
  if entry = ∅ ∧ banks[p]?.isNone then none else some entry

lemma indexEntry_entryOf {entry : Finset Slot} (hmem : ∀ s, s ∈ entry ↔ Below banks p s) :
    IndexEntry banks p (entryOf banks p entry) := by
  unfold entryOf
  split
  case isTrue h =>
    refine ⟨isNone_iff_eq_none.1 h.2, fun s hs => ?_⟩
    rw [← hmem, h.1] at hs
    exact Finset.notMem_empty s hs
  case isFalse h =>
    refine ⟨?_, hmem⟩
    rw [isNone_iff_eq_none, not_and_or] at h
    exact h.symm

/-- Changes of the banks that do not concern `p`. -/
lemma IndexEntry.congr {banks' : TreeMap Slot ForkBank} (h : IndexEntry banks p o)
    (hbank : banks'[p]? = banks[p]?) (hbelow : ∀ s, Below banks' p s ↔ Below banks p s) :
    IndexEntry banks' p o := by
  cases o with
  | none => exact ⟨hbank.trans h.1, fun s hs => h.2 s ((hbelow s).1 hs)⟩
  | some entry => exact ⟨hbank ▸ h.1, fun s => (h.2 s).trans (hbelow s).symm⟩

/-! ## Insertion -/

lemma below_insert (hfresh : f.banks[bank.slot]? = none) :
    Below (f.banks.insert bank.slot bank) p s ↔
      Below f.banks p s ∨ s = bank.slot ∧ p ∈ bank.properAncestors := by
  unfold Below
  by_cases hs : s = bank.slot
  · subst hs
    simp [hfresh]
  · simp [getElem?_insert_eq, hs]

lemma getElem?_foldl_addDescendant (slot : Slot) (hnodup : parents.Nodup)
    (d : TreeMap Slot (Finset Slot)) (p : Slot) :
    (parents.foldl (addDescendant slot) d)[p]? =
      if p ∈ parents then some (insert slot (d[p]?.getD ∅)) else d[p]? := by
  induction parents generalizing d with
  | nil => simp
  | cons q parents ih =>
    obtain ⟨hq, hrest⟩ := nodup_cons.1 hnodup
    rw [foldl_cons, ih hrest, addDescendant, getElem?_insert_eq]
    by_cases hp : p = q
    · subst hp
      simp [hq]
    · simp [hp]

lemma getElem?_addDescendants (d : TreeMap Slot (Finset Slot)) (bank : ForkBank) (p : Slot) :
    (addDescendants d bank)[p]? =
      if p ∈ bank.properAncestors then some (insert bank.slot (d[p]?.getD ∅))
      else if p = bank.slot then some (d[p]?.getD ∅) else d[p]? := by
  rw [addDescendants, getElem?_foldl_addDescendant _ bank.nodup, getElem?_insert_eq]
  by_cases hp : p = bank.slot
  · have hnot : bank.slot ∉ bank.properAncestors := fun h => (bank.lt_slot _ h).false
    subst hp
    rw [if_neg hnot, if_neg hnot, if_pos rfl]
  · simp only [if_neg hp]

lemma insert_eq (hfresh : f.banks[bank.slot]? = none) :
    f.insert bank =
      some ⟨f.banks.insert bank.slot bank, addDescendants f.descendants bank, f.root⟩ := by
  simp [BankForks.insert, hfresh]

lemma insert_consistent (hf : Consistent f) (hfresh : f.banks[bank.slot]? = none) :
    Consistent ⟨f.banks.insert bank.slot bank, addDescendants f.descendants bank, f.root⟩ := by
  refine ⟨fun s b hb => ?_, fun p => ?_⟩
  · change (f.banks.insert bank.slot bank)[s]? = some b at hb
    rw [getElem?_insert_eq] at hb
    split at hb
    case isTrue hs => exact Option.some.inj hb ▸ hs.symm
    case isFalse => exact hf.slot s b hb
  · change IndexEntry (f.banks.insert bank.slot bank) p (addDescendants f.descendants bank)[p]?
    have hentry := hf.entry p
    have hmem := fun s => hentry.mem_getD (s := s)
    rw [getElem?_addDescendants]
    split_ifs with hp hslot
    · refine ⟨.inr (Finset.insert_ne_empty _ _), fun s => ?_⟩
      rw [Finset.mem_insert, hmem, below_insert hfresh]
      tauto
    · refine ⟨.inl ?_, fun s => ?_⟩
      · rw [getElem?_insert_eq, if_pos hslot]
        exact nofun
      · rw [hmem, below_insert hfresh]
        tauto
    · refine hentry.congr (by rw [getElem?_insert_eq, if_neg hslot]) fun s => ?_
      rw [below_insert hfresh]
      tauto

/-! ## Removal -/

lemma below_erase {slot : Slot} :
    Below (f.banks.erase slot) p s ↔ Below f.banks p s ∧ s ≠ slot := by
  unfold Below
  by_cases hs : s = slot
  · simp [hs]
  · simp [getElem?_erase_eq, hs]

lemma foldlM_removeDescendant (banks : TreeMap Slot ForkBank) (slot : Slot)
    (hnodup : parents.Nodup) {d : TreeMap Slot (Finset Slot)}
    (hthere : ∀ p ∈ parents, d[p]? ≠ none) :
    ∃ d', parents.foldlM (removeDescendant banks slot) d = some d' ∧ ∀ p, d'[p]? =
      if p ∈ parents then entryOf banks p ((d[p]?.getD ∅).erase slot) else d[p]? := by
  induction parents generalizing d with
  | nil => exact ⟨d, rfl, by simp⟩
  | cons q parents ih =>
    obtain ⟨hq, hrest⟩ := nodup_cons.1 hnodup
    obtain ⟨⟨entry, hentry⟩, hthere⟩ :=
      (forall_mem_cons.1 hthere).imp ne_none_iff_exists'.1 id
    set d₁ := if entry.erase slot = ∅ ∧ banks[q]?.isNone then d.erase q
      else d.insert q (entry.erase slot) with hd₁
    have hget : ∀ p : Slot, d₁[p]? =
        if p = q then entryOf banks p ((d[p]?.getD ∅).erase slot) else d[p]? := by
      intro p
      rw [hd₁]
      by_cases hp : p = q
      · subst hp
        rw [if_pos rfl, hentry, getD_some, entryOf]
        split_ifs
        · rw [getElem?_erase_eq, if_pos rfl]
        · rw [getElem?_insert_eq, if_pos rfl]
      · split_ifs
        · rw [getElem?_erase_eq, if_neg hp]
        · rw [getElem?_insert_eq, if_neg hp]
    have hne : ∀ p ∈ parents, p ≠ q := fun p hp heq => hq (heq ▸ hp)
    obtain ⟨d', hd', hget'⟩ := ih hrest (d := d₁) fun p hp => by
      rw [hget, if_neg (hne p hp)]
      exact hthere p hp
    refine ⟨d', ?_, fun p => ?_⟩
    · rw [foldlM_cons, removeDescendant, hentry]
      exact hd'
    · rw [hget', hget]
      by_cases hp : p = q
      · subst hp
        simp [hq]
      · simp [hp]

lemma remove_consistent (hf : Consistent f) (slot : Slot) :
    ∃ f', f.remove slot = some f' ∧ Consistent f' ∧ f'.root = f.root ∧
      ∀ s : Slot, f'.banks[s]? = if s = slot then none else f.banks[s]? := by
  unfold remove
  rcases hbank : f.banks[slot]? with _ | bank
  · refine ⟨f, rfl, hf, rfl, fun s => ?_⟩
    split
    case isTrue hs => rw [hs, hbank]
    case isFalse => rfl
  obtain rfl := hf.slot slot bank hbank
  have hbelow : ∀ {p}, p ∈ bank.properAncestors → Below f.banks p bank.slot :=
    fun hp => ⟨bank, hbank, hp⟩
  have hnot : bank.slot ∉ bank.properAncestors := fun h => (bank.lt_slot _ h).false
  obtain ⟨d, hd, hget⟩ := foldlM_removeDescendant (f.banks.erase bank.slot) bank.slot bank.nodup
    (d := f.descendants) fun p hp hnone => by
      have hentry := hf.entry p
      rw [hnone] at hentry
      exact hentry.2 _ (hbelow hp)
  obtain ⟨entry, hentry, hmem⟩ := hf.index (ne_none_iff_exists'.2 ⟨bank, hbank⟩)
  have hself : d[bank.slot]? = some entry := by rw [hget, if_neg hnot, hentry]
  refine ⟨⟨f.banks.erase bank.slot, if entry = ∅ then d.erase bank.slot else d, f.root⟩,
    by simp [hd, hself], ⟨?_, ?_⟩, rfl, ?_⟩
  · intro s b hb
    change (f.banks.erase bank.slot)[s]? = some b at hb
    rw [getElem?_erase_eq] at hb
    split at hb
    case isTrue => exact absurd hb nofun
    case isFalse => exact hf.slot s b hb
  · intro p
    change IndexEntry (f.banks.erase bank.slot) p
      (if entry = ∅ then d.erase bank.slot else d)[p]?
    have hentryp := hf.entry p
    by_cases hp : p = bank.slot
    · subst hp
      have hown : (if entry = ∅ then d.erase bank.slot else d)[bank.slot]? =
          entryOf (f.banks.erase bank.slot) bank.slot entry := by
        simp only [entryOf, getElem?_erase_eq, if_true, isNone_none, and_true]
        split_ifs
        · rw [getElem?_erase_eq, if_pos rfl]
        · exact hself
      rw [hown]
      refine indexEntry_entryOf fun s => ?_
      rw [hmem s, below_erase, iff_self_and]
      exact fun hs => (hs.lt hf).ne'
    · have hother : (if entry = ∅ then d.erase bank.slot else d)[p]? = d[p]? := by
        split_ifs
        · rw [getElem?_erase_eq, if_neg hp]
        · rfl
      rw [hother, hget]
      split_ifs with hproper
      · refine indexEntry_entryOf fun s => ?_
        rw [Finset.mem_erase, hentryp.mem_getD, below_erase, and_comm]
      · refine hentryp.congr (by rw [getElem?_erase_eq, if_neg hp]) fun s => ?_
        rw [below_erase, and_iff_left_iff_imp]
        rintro ⟨b, hb, hpb⟩ rfl
        exact hproper (mem_unique hb hbank ▸ hpb)
  · exact fun s => getElem?_erase_eq f.banks bank.slot s

/-! ## Pruning -/

lemma removeAll_consistent (slots : List (Slot × Bool)) (hf : Consistent f) :
    ∃ f', slots.foldlM (fun f p => f.remove p.1) f = some f' ∧ Consistent f' ∧ f'.root = f.root ∧
      ∀ s : Slot, f'.banks[s]? = if s ∈ slots.map (·.1) then none else f.banks[s]? := by
  induction slots generalizing f with
  | nil => exact ⟨f, rfl, hf, rfl, by simp⟩
  | cons q slots ih =>
    obtain ⟨f₁, hf₁, hcons₁, hroot₁, hbanks₁⟩ := remove_consistent hf q.1
    obtain ⟨f', hf', hcons', hroot', hbanks'⟩ := ih hcons₁
    refine ⟨f', ?_, hcons', hroot'.trans hroot₁, fun s => ?_⟩
    · rw [foldlM_cons, hf₁]
      exact hf'
    · rw [hbanks', hbanks₁, map_cons]
      by_cases hs : s = q.1 <;> simp [hs]

/-- The root, what is below it, and what is above it from a slot on. -/
def Rooted (banks : TreeMap Slot ForkBank) (root h s : Slot) : Prop :=
  s = root ∨ Below banks root s ∨ Below banks s root ∧ h ≤ s

section

variable (hf : Consistent f)

include hf

lemma isKept_eq {h : Slot} (hroot : f.banks[root]? ≠ none) (hs : f.banks[s]? ≠ none) :
    ∃ kept, f.isKept root h s = some kept ∧ (kept = true ↔ Rooted f.banks root h s) := by
  obtain ⟨below, hbelow, hmem⟩ := hf.index hroot
  obtain ⟨above, habove, hmem'⟩ := hf.index hs
  unfold isKept Rooted
  by_cases h1 : s = root
  · exact ⟨true, by simp [h1], by simp [h1]⟩
  by_cases h2 : s ∈ below
  · exact ⟨true, by simp [h1, hbelow, h2], iff_of_true rfl (.inr (.inl ((hmem s).1 h2)))⟩
  have h2' : ¬ Below f.banks root s := fun hb => h2 ((hmem s).2 hb)
  by_cases h3 : s < root ∧ h ≤ s
  · refine ⟨decide (root ∈ above), by simp [h1, hbelow, h2, h3, habove], ?_⟩
    rw [decide_eq_true_iff, hmem']
    tauto
  · refine ⟨false, by simp only [if_neg h1, hbelow, bind_eq_bind, bind_some, if_neg h2,
      if_neg h3], iff_of_false nofun ?_⟩
    rintro (heq | hb | ⟨hb, hle⟩)
    · exact h1 heq
    · exact h2' hb
    · exact h3 ⟨hb.lt hf, hle⟩

lemma setRoot_consistent (highest : Option Slot) {keys : List Slot}
    (hroot : f.banks[root]? ≠ none) (hkeys : ∀ s, s ∈ keys ↔ f.banks[s]? ≠ none) :
    ∃ f', f.setRoot root highest keys = some f' ∧ Consistent f' ∧ ∀ (s : Slot) bank,
      f'.banks[s]? = some bank ↔
        f.banks[s]? = some bank ∧ Rooted f.banks root (highest.getD root) s := by
  have hf' : Consistent { f with root } := ⟨hf.slot, hf.entry⟩
  choose! kept hkept hrooted using fun s => isKept_eq (h := highest.getD root) (s := s) hf' hroot
  have hmap : keys.mapM (fun slot => (({ f with root } : BankForks).isKept root
      (highest.getD root) slot).map (slot, ·)) = some (keys.map fun slot => (slot, kept slot)) :=
    ExceptLoops.mapM_eq_some_map fun s hs => by rw [hkept s ((hkeys s).1 hs), map_some]
  obtain ⟨f', hremoved, hcons, -, hbanks⟩ :=
    removeAll_consistent ((keys.map fun slot => (slot, kept slot)).filter (!·.2)) hf'
  refine ⟨f', by simp [setRoot, pruneNonRooted, hmap, hremoved], hcons, fun s bank => ?_⟩
  have hmem : s ∈ ((keys.map fun slot => (slot, kept slot)).filter (!·.2)).map (·.1) ↔
      s ∈ keys ∧ kept s = false := by
    simp [mem_filter]
  simp only [hbanks, hmem]
  by_cases hs : f.banks[s]? = none
  · simp [hs]
  · have hkept_iff : kept s = true ↔ Rooted f.banks root (highest.getD root) s := hrooted s hs
    simp only [(hkeys s).2 hs, true_and, ← hkept_iff]
    cases kept s <;> simp

/-! ## Relations -/

lemma highestSlot_spec (hs : f.banks[s]? = some bank) :
    ∃ highest, f.highestSlot = some highest ∧
      ∀ (t : Slot) b, f.banks[t]? = some b → t ≤ highest := by
  have hmem : ∀ (t : Slot) b, f.banks[t]? = some b → t ∈ f.banks.toList.map (·.2.slot) :=
    fun t b hb => mem_map.2
      ⟨(t, b), TreeMap.mem_toList_iff_getElem?_eq_some.2 hb, hf.slot t b hb⟩
  rcases hmax : f.highestSlot with _ | highest
  · rw [highestSlot, max?_eq_none_iff] at hmax
    exact absurd (hmax ▸ hmem s bank hs) not_mem_nil
  · exact ⟨highest, rfl, fun t b hb => (max?_eq_some_iff.1 hmax).2 t (hmem t b hb)⟩

lemma relationship_spec {a b : Slot} {bank' : ForkBank}
    (ha : f.banks[a]? = some bank) (hb : f.banks[b]? = some bank') (hra : f.root ≤ a)
    (hrb : f.root ≤ b) :
    ∃ r, f.relationship a b = some r ∧ (r = .equal ↔ a = b) ∧
      (r = .ancestor ↔ Below f.banks a b) ∧ (r = .descendant ↔ Below f.banks b a) := by
  obtain ⟨highest, hhighest, hle⟩ := highestSlot_spec hf ha
  have hknown : (f.root ≤ a ∧ a ≤ highest) ∧ f.root ≤ b ∧ b ≤ highest :=
    ⟨⟨hra, hle a _ ha⟩, hrb, hle b _ hb⟩
  have hbelow : (f.banks[b]?.any fun bank => a = bank.slot || bank.properAncestors.contains a) = true ↔
      a = b ∨ Below f.banks a b := by
    simp [hb, Below, hf.slot b bank' hb]
  have hindex : (f.descendants[b]?.any fun slots => a ∈ slots) = true ↔ Below f.banks b a := by
    rw [← (hf.entry b).mem_getD]
    cases f.descendants[b]? <;> simp
  have hab : ∀ {x y : Slot}, Below f.banks x y → ¬ x = y ∧ ¬ Below f.banks y x :=
    fun h => ⟨(h.lt hf).ne, fun h' => (h.lt hf).not_gt (h'.lt hf)⟩
  simp only [relationship, hhighest, bind_eq_bind, bind_some, if_pos hknown]
  refine ⟨_, rfl, ?_⟩
  generalize (f.banks[b]?.any _) = inAncestors at hbelow ⊢
  generalize (f.descendants[b]?.any _) = inDescendants at hindex ⊢
  by_cases heq : a = b
  · subst heq
    have hself : ¬ Below f.banks a a := fun h => (hab h).1 rfl
    simp [hself]
  by_cases h1 : Below f.banks a b
  · simp [heq, hbelow, h1, (hab h1).2]
  by_cases h2 : Below f.banks b a <;> simp [heq, hbelow, hindex, h1, h2]

end

/-! ## Runs -/

/-- The forks that calls can lead to from a root bank without parents in memory. -/
inductive BankRun : BankForks → Prop
  | new (rootBank : ForkBank) : BankRun (newRwArc rootBank [])
  | insert {f f' : BankForks} {bank : ForkBank} (hrun : BankRun f)
      (hfresh : f.banks[bank.slot]? = none) (hcall : f.insert bank = some f') : BankRun f'
  | remove {f f' : BankForks} {slot : Slot} (hrun : BankRun f)
      (hcall : f.remove slot = some f') : BankRun f'
  | setRoot {f f' : BankForks} {root : Slot} {highest : Option Slot} {keys : List Slot}
      (hrun : BankRun f) (hroot : f.banks[root]? ≠ none)
      (hkeys : ∀ s, s ∈ keys ↔ f.banks[s]? ≠ none)
      (hcall : f.setRoot root highest keys = some f') : BankRun f'

lemma newRwArc_consistent (rootBank : ForkBank) : Consistent (newRwArc rootBank []) := by
  have hempty : Consistent ⟨∅, ∅, rootBank.slot⟩ :=
    ⟨fun s bank h => absurd h (by simp), fun p => ⟨by simp, fun s ⟨b, hb, _⟩ => absurd hb (by simp)⟩⟩
  exact insert_consistent hempty (by simp)

lemma BankRun.consistent (hrun : BankRun f) : Consistent f := by
  induction hrun with
  | new rootBank => exact newRwArc_consistent rootBank
  | insert _ hfresh hcall ih =>
    exact mem_unique (insert_eq hfresh) hcall ▸ insert_consistent ih hfresh
  | @remove _ _ slot _ hcall ih =>
    obtain ⟨f', hf', hcons, -⟩ := remove_consistent ih slot
    exact mem_unique hf' hcall ▸ hcons
  | @setRoot _ _ root highest keys _ hroot hkeys hcall ih =>
    obtain ⟨f', hf', hcons, -⟩ := setRoot_consistent ih highest hroot hkeys
    exact mem_unique hf' hcall ▸ hcons

theorem bankForks_consistent (hrun : BankRun f) :
    Consistent f ∧
    (∀ bank : ForkBank, f.banks[bank.slot]? = none → ∃ f', f.insert bank = some f') ∧
    (∀ slot, ∃ f', f.remove slot = some f' ∧
      ∀ s : Slot, f'.banks[s]? = if s = slot then none else f.banks[s]?) ∧
    (∀ (root : Slot) (highest : Option Slot) (keys : List Slot), f.banks[root]? ≠ none →
      (∀ s, s ∈ keys ↔ f.banks[s]? ≠ none) →
      ∃ f', f.setRoot root highest keys = some f' ∧ ∀ (s : Slot) bank, f'.banks[s]? = some bank ↔
        f.banks[s]? = some bank ∧ Rooted f.banks root (highest.getD root) s) ∧
    ∀ a b : Slot, f.banks[a]? ≠ none → f.banks[b]? ≠ none → f.root ≤ a → f.root ≤ b →
      ∃ r r', f.relationship a b = some r ∧ f.relationship b a = some r' ∧
        (r = .equal ↔ a = b) ∧ (r = .ancestor ↔ Below f.banks a b) ∧
        (r = .descendant ↔ r' = .ancestor) := by
  have hf := hrun.consistent
  refine ⟨hf, fun bank hfresh => ⟨_, insert_eq hfresh⟩, fun slot => ?_,
    fun root highest keys hroot hkeys => ?_, fun a b ha hb hra hrb => ?_⟩
  · obtain ⟨f', hf', -, -, hbanks⟩ := remove_consistent hf slot
    exact ⟨f', hf', hbanks⟩
  · obtain ⟨f', hf', -, hbanks⟩ := setRoot_consistent hf highest hroot hkeys
    exact ⟨f', hf', hbanks⟩
  · obtain ⟨bank, ha⟩ := ne_none_iff_exists'.1 ha
    obtain ⟨bank', hb⟩ := ne_none_iff_exists'.1 hb
    obtain ⟨r, hr, hequal, hancestor, hdescendant⟩ := relationship_spec hf ha hb hra hrb
    obtain ⟨r', hr', -, hancestor', -⟩ := relationship_spec hf hb ha hrb hra
    exact ⟨r, r', hr, hr', hequal, hancestor, hdescendant.trans hancestor'.symm⟩

/-! ## Banks below the root -/

def bankAfter (slot : Slot) : ForkBank where
  slot := slot
  properAncestors := List.range slot
  nodup := nodup_range
  lt_slot _ := mem_range.1

def twoBanks : BankForks where
  banks := (newRwArc (bankAfter 0) []).banks.insert 1 (bankAfter 1)
  descendants := addDescendants (newRwArc (bankAfter 0) []).descendants (bankAfter 1)
  root := 0

lemma twoBanks_run : BankRun twoBanks :=
  have hfresh : (newRwArc (bankAfter 0) []).banks[(bankAfter 1).slot]? = none := rfl
  (BankRun.new (bankAfter 0)).insert hfresh (insert_eq hfresh)

theorem bankForks_consistent_two : BankRun twoBanks ∧ Consistent twoBanks :=
  ⟨twoBanks_run, (bankForks_consistent twoBanks_run).1⟩

/-- When the root moves to slot 1 and the cluster has confirmed slot 0 only, bank 0 is kept as an
ancestor of the root, but it is outside the known slots. -/
theorem relationship_below_root :
    ∃ f, BankRun f ∧ Below f.banks 0 1 ∧ f.relationship 0 1 = some .unknown := by
  have hkeys : ∀ s : Slot, s ∈ [0, 1] ↔ twoBanks.banks[s]? ≠ none := by
    intro s
    change _ ↔ (((∅ : TreeMap Slot ForkBank).insert 0 (bankAfter 0)).insert 1 (bankAfter 1))[s]? ≠ none
    rw [getElem?_insert_eq, getElem?_insert_eq]
    split_ifs <;> simp [*]
  have hall : ((twoBanks.setRoot 1 (some 0) [0, 1]).any fun f =>
      f.relationship 0 1 = some .unknown && f.banks[1]?.any (·.properAncestors.contains 0)) = true := by
    decide +kernel
  obtain ⟨f, hf, hprops⟩ := (any_eq_true _ _).1 hall
  obtain ⟨hunknown, hbelow⟩ := Bool.and_eq_true_iff.1 hprops
  obtain ⟨bank, hbank, hmem⟩ := (any_eq_true _ _).1 hbelow
  exact ⟨f, twoBanks_run.setRoot (by decide) hkeys hf, ⟨bank, hbank, by simpa using hmem⟩,
    of_decide_eq_true hunknown⟩

end Nuah.Proofs
