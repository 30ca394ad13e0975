import Nuah.RollingBitField

/-!
# The window of a rolling bit field

The bits of the ring are those of the keys of a window, and all older keys are in the excess. Removing
a key of the window, and moving its least keys to the excess, keep that.
-/

namespace Nuah.Proofs

open List hiding contains
open RollingBitField

variable {s : RollingBitField} {key k : Nat}

variable {t u : RollingBitField}

lemma eq_of_address_eq {w low a b : Nat} (ha : low ≤ a) (hb : low ≤ b) (ha' : a < low + w)
    (hb' : b < low + w) (h : a % w = b % w) : a = b := by
  have hab := Nat.sub_mod_eq_zero_of_mod_eq h
  have hba := Nat.sub_mod_eq_zero_of_mod_eq h.symm
  rw [Nat.mod_eq_of_lt (by omega)] at hab hba
  omega

lemma containsAssumeInRange_setBit (hlength : s.bits.length = s.maxWidth) (hpos : 0 < s.maxWidth)
    (key k : Nat) (value : Bool) :
    (s.setBit key value).containsAssumeInRange k =
      if k % s.maxWidth = key % s.maxWidth then value else s.containsAssumeInRange k := by
  have hlt : key % s.maxWidth < s.bits.length := by
    rw [hlength]
    exact Nat.mod_lt key hpos
  unfold containsAssumeInRange setBit getAddress
  dsimp only
  split_ifs with h
  · rw [h, getElem?_set_self hlt, Option.getD_some]
  · rw [getElem?_set_ne (Ne.symm h)]

lemma mem_itemsInRange :
    k ∈ s.itemsInRange ↔ s.min ≤ k ∧ k < s.maxExclusive ∧ s.containsAssumeInRange k = true := by
  unfold itemsInRange keysFrom
  rw [mem_filter, mem_range'_1]
  constructor
  · rintro ⟨⟨hle, hlt⟩, hbit⟩
    exact ⟨hle, by omega, hbit⟩
  · rintro ⟨hle, hlt, hbit⟩
    exact ⟨⟨hle, by omega⟩, hbit⟩

lemma itemsInRange_nodup (s : RollingBitField) : s.itemsInRange.Nodup :=
  (nodup_range' (h := by decide)).filter _

/-- The window is as long as the ring at most, and begins with a key of the set if it is not empty;
all older keys are in the excess. -/
structure Rolling (s : RollingBitField) : Prop where
  pos : 0 < s.maxWidth
  length : s.bits.length = s.maxWidth
  le : s.min ≤ s.maxExclusive
  width : s.maxExclusive ≤ s.min + s.maxWidth
  nodup : s.excess.Nodup
  below : ∀ e ∈ s.excess, e < s.min
  count : s.count = s.excess.length + s.itemsInRange.length
  owned : ∀ k, s.containsAssumeInRange k = true →
    ∃ k', s.min ≤ k' ∧ k' < s.maxExclusive ∧ k' % s.maxWidth = k % s.maxWidth
  first : s.min < s.maxExclusive → s.containsAssumeInRange s.min = true

namespace Rolling

section

variable (h : Rolling s)

include h

lemma allItemsInExcess_iff : s.allItemsInExcess = true ↔ s.itemsInRange = [] := by
  rw [allItemsInExcess, beq_iff_eq, h.count, ← length_eq_zero_iff]
  omega

lemma min_mem (hlt : s.min < s.maxExclusive) : s.min ∈ s.itemsInRange :=
  mem_itemsInRange.2 ⟨le_rfl, hlt, h.first hlt⟩

lemma itemsInRange_eq_nil_iff : s.itemsInRange = [] ↔ s.min = s.maxExclusive := by
  constructor
  · intro hnil
    by_contra hne
    have hmem := h.min_mem (lt_of_le_of_ne h.le hne)
    rw [hnil] at hmem
    cases hmem
  · intro heq
    rw [itemsInRange, keysFrom, heq, Nat.sub_self]
    rfl

lemma min_lt (hne : s.itemsInRange ≠ []) : s.min < s.maxExclusive :=
  lt_of_le_of_ne h.le (mt h.itemsInRange_eq_nil_iff.2 hne)

lemma getAll_nodup : s.getAll.Nodup := by
  refine nodup_append.2 ⟨h.nodup, itemsInRange_nodup s, ?_⟩
  intro a ha b hb hab
  have hlt := h.below a ha
  have hle := (mem_itemsInRange.1 hb).1
  omega

lemma contains_iff : s.contains k = true ↔ k ∈ s.getAll := by
  unfold contains getAll
  rw [mem_append, mem_itemsInRange]
  split_ifs with hlt hle
  · constructor
    · exact fun hbit => .inr ⟨hle, hlt, hbit⟩
    · rintro (hmem | ⟨-, -, hbit⟩)
      · exact absurd hle (Nat.not_le.2 (h.below k hmem))
      · exact hbit
  · constructor
    · exact fun hmem => .inl (contains_iff_mem.1 hmem)
    · rintro (hmem | ⟨hle', -, -⟩)
      · exact contains_iff_mem.2 hmem
      · exact absurd hle' hle
  · constructor
    · exact False.elim
    · rintro (hmem | ⟨-, hlt', -⟩)
      · exact absurd ((h.below k hmem).trans_le h.le) hlt
      · exact absurd hlt' hlt

lemma exists_owner (hbit : s.containsAssumeInRange k = true) :
    ∃ k' ∈ s.itemsInRange, k' % s.maxWidth = k % s.maxWidth := by
  obtain ⟨k', hle, hlt, hmod⟩ := h.owned k hbit
  refine ⟨k', mem_itemsInRange.2 ⟨hle, hlt, ?_⟩, hmod⟩
  unfold containsAssumeInRange getAddress at hbit ⊢
  rw [hmod]
  exact hbit

lemma not_bitsEmpty (hlt : s.min < s.maxExclusive) :
    ¬(s.count = 0 ∨ s.allItemsInExcess = true) := by
  have hnil : s.itemsInRange ≠ [] := fun hnil => hlt.ne (h.itemsInRange_eq_nil_iff.1 hnil)
  rintro (hzero | hall)
  · have hcount := h.count
    exact hnil (length_eq_zero_iff.1 (by omega))
  · exact hnil (h.allItemsInExcess_iff.1 hall)

lemma not_contains_of_ge (hge : s.maxExclusive ≤ k) (hlt : k < s.min + s.maxWidth) :
    s.containsAssumeInRange k = false := by
  by_contra hbit
  obtain ⟨k', hle', hlt', hmod⟩ := h.owned k (Bool.not_eq_false _ ▸ hbit)
  have := eq_of_address_eq hle' (h.le.trans hge) (by omega) hlt hmod
  omega

lemma not_contains_of_nil (hnil : s.itemsInRange = []) (k : Nat) :
    s.containsAssumeInRange k = false := by
  by_contra hbit
  obtain ⟨k', hle', hlt', -⟩ := h.owned k (Bool.not_eq_false _ ▸ hbit)
  have := h.itemsInRange_eq_nil_iff.1 hnil
  omega

end

end Rolling

/-- The field without the bit of a key of its window, before the purge. -/
structure BitCleared (s t : RollingBitField) (key : Nat) : Prop where
  maxWidth : t.maxWidth = s.maxWidth
  length : t.bits.length = t.maxWidth
  min : t.min = s.min
  maxExclusive : t.maxExclusive = s.maxExclusive
  bit : ∀ k, t.containsAssumeInRange k =
    if k % s.maxWidth = key % s.maxWidth then false else s.containsAssumeInRange k
  total : t.count + s.excess.length + 1 = s.count + t.excess.length

namespace BitCleared

section

variable (h : BitCleared s t key)

include h

section

variable (hs : Rolling s)

include hs

section

variable (hkey : key ∈ s.itemsInRange)

include hkey

lemma mem_iff : k ∈ t.itemsInRange ↔ k ∈ s.itemsInRange ∧ k ≠ key := by
  obtain ⟨hkle, hklt, -⟩ := mem_itemsInRange.1 hkey
  have hwidth := hs.width
  rw [mem_itemsInRange, mem_itemsInRange, h.min, h.maxExclusive, h.bit]
  constructor
  · rintro ⟨hle, hlt, hbit⟩
    split_ifs at hbit with hmod
    refine ⟨⟨hle, hlt, hbit⟩, ?_⟩
    rintro rfl
    exact hmod rfl
  · rintro ⟨⟨hle, hlt, hbit⟩, hne⟩
    refine ⟨hle, hlt, ?_⟩
    rw [if_neg]
    · exact hbit
    · intro hmod
      exact hne (eq_of_address_eq hle hkle (by omega) (by omega) hmod)

lemma perm : s.itemsInRange.Perm (key :: t.itemsInRange) := by
  refine (perm_ext_iff_of_nodup (itemsInRange_nodup s) ?_).2 ?_
  · refine nodup_cons.2 ⟨?_, itemsInRange_nodup t⟩
    exact fun hmem => ((h.mem_iff hs hkey).1 hmem).2 rfl
  · intro k
    rw [mem_cons, h.mem_iff hs hkey]
    constructor
    · intro hmem
      by_cases heq : k = key
      · exact .inl heq
      · exact .inr ⟨hmem, heq⟩
    · rintro (rfl | ⟨hmem, -⟩)
      · exact hkey
      · exact hmem

lemma length_eq : t.count = t.excess.length + t.itemsInRange.length := by
  have hperm := (h.perm hs hkey).length_eq
  have hcount := hs.count
  have htotal := h.total
  rw [length_cons] at hperm
  omega

lemma owned (hbit : t.containsAssumeInRange k = true) :
    ∃ k' ∈ t.itemsInRange, k' % s.maxWidth = k % s.maxWidth := by
  rw [h.bit] at hbit
  split_ifs at hbit with hmod
  obtain ⟨k', hk', hmod'⟩ := hs.exists_owner hbit
  refine ⟨k', (h.mem_iff hs hkey).2 ⟨hk', ?_⟩, hmod'⟩
  rintro rfl
  exact hmod hmod'.symm

end

end

end

end BitCleared

/-- The purge after the removal of a key of the window: the window begins with the least key that is
left, and has the same keys. -/
structure Purged (t u : RollingBitField) : Prop where
  excess : u.excess = t.excess
  count : u.count = t.count
  maxWidth : u.maxWidth = t.maxWidth
  maxExclusive : u.maxExclusive = t.maxExclusive
  mem : ∀ k, k ∈ u.itemsInRange ↔ k ∈ t.itemsInRange
  min_le : t.min ≤ u.min
  rolling : Rolling u

lemma Purged.perm (h : Purged t u) :
    u.itemsInRange.Perm t.itemsInRange :=
  (perm_ext_iff_of_nodup (itemsInRange_nodup u) (itemsInRange_nodup t)).2 h.mem

section

lemma purged_of_least (hs : Rolling s) (h : BitCleared s t key) (hkey : key ∈ s.itemsInRange)
    (hnodup : t.excess.Nodup) {least : Nat} (hle : t.min ≤ least)
    (hbelow : ∀ e ∈ t.excess, e < least) (hleast : ∀ k ∈ t.itemsInRange, least ≤ k)
    (hfirst : least < t.maxExclusive → t.containsAssumeInRange least = true)
    (hend : least ≤ t.maxExclusive) : Purged t { t with min := least } := by
  have hbit : ∀ k, ({ t with min := least } : RollingBitField).containsAssumeInRange k =
      t.containsAssumeInRange k := fun _ => rfl
  have hmem : ∀ k, k ∈ ({ t with min := least } : RollingBitField).itemsInRange ↔
      k ∈ t.itemsInRange := by
    intro k
    constructor
    · intro hk
      obtain ⟨hk, hlt, hbit⟩ := mem_itemsInRange.1 hk
      exact mem_itemsInRange.2 ⟨hle.trans hk, hlt, hbit⟩
    · intro hk
      obtain ⟨-, hlt, hbit⟩ := mem_itemsInRange.1 hk
      exact mem_itemsInRange.2 ⟨hleast k hk, hlt, hbit⟩
  have hperm := (perm_ext_iff_of_nodup (itemsInRange_nodup { t with min := least })
    (itemsInRange_nodup t)).2 hmem
  have hwidth := hs.width
  have hmin := h.min
  have hmax := h.maxExclusive
  refine ⟨rfl, rfl, rfl, rfl, hmem, hle, ?_⟩
  refine ⟨h.maxWidth ▸ hs.pos, h.length, hend, ?_, hnodup, hbelow, ?_, ?_, hfirst⟩
  · change t.maxExclusive ≤ least + t.maxWidth
    rw [h.maxWidth]
    omega
  · rw [hperm.length_eq]
    exact h.length_eq hs hkey
  · intro k hk
    obtain ⟨k', hk', hmod⟩ := h.owned hs hkey ((hbit k).symm.trans hk)
    obtain ⟨hle', hlt', -⟩ := mem_itemsInRange.1 ((hmem k').2 hk')
    refine ⟨k', hle', hlt', ?_⟩
    change k' % t.maxWidth = k % t.maxWidth
    rw [h.maxWidth]
    exact hmod

lemma purge_purged (hs : Rolling s) (h : BitCleared s t key) (hkey : key ∈ s.itemsInRange)
    (hnodup : t.excess.Nodup) (hbelow : ∀ e ∈ t.excess, e < s.min ∨ e = key ∧ key = s.min) :
    Purged t (t.purge key) := by
  obtain ⟨hkle, hklt, hkbit⟩ := mem_itemsInRange.1 hkey
  have hmin := h.min
  have hmax := h.maxExclusive
  have hcount := h.length_eq hs hkey
  unfold purge
  split_ifs with hleft hkeymin
  · -- the least key was removed: the next one is found by a search
    have hnil : t.itemsInRange ≠ [] := by
      intro hnil
      rw [hnil, length_nil, Nat.add_zero] at hcount
      have hall : t.allItemsInExcess = true := beq_iff_eq.2 hcount.symm
      rw [hall] at hleft
      exact absurd hleft.2 (by decide)
    have hafter : ∀ k ∈ t.itemsInRange, t.min + 1 ≤ k := by
      intro k hk
      have hne := ((h.mem_iff hs hkey).1 hk).2
      have hle := (mem_itemsInRange.1 hk).1
      omega
    cases hfind : (t.keysFrom (t.min + 1)).find? t.containsAssumeInRange with
    | none =>
      obtain ⟨k, hk⟩ := exists_mem_of_ne_nil _ hnil
      obtain ⟨-, hlt, hbit⟩ := mem_itemsInRange.1 hk
      have hge := hafter k hk
      have hnot := find?_eq_none.1 hfind k (mem_range'_1.2 ⟨hge, by omega⟩)
      exact absurd hbit hnot
    | some next =>
      obtain ⟨hbit, hnext, hnot⟩ := find?_range'_eq_some.1 hfind
      obtain ⟨hge, hlt⟩ := mem_range'_1.1 hnext
      have hleast : ∀ k ∈ t.itemsInRange, next ≤ k := by
        intro k hk
        by_contra hlt'
        have hnone := hnot k (hafter k hk) (Nat.not_le.1 hlt')
        rw [(mem_itemsInRange.1 hk).2.2] at hnone
        exact absurd hnone (by decide)
      refine purged_of_least hs h hkey hnodup (by omega) ?_ hleast (fun _ => hbit) (by omega)
      intro e he
      rcases hbelow e he with hlt' | ⟨rfl, heq⟩
      · omega
      · omega
  · -- another key was removed
    have hne : key ≠ s.min := hmin ▸ hkeymin
    have hpurged := purged_of_least hs h hkey hnodup (le_refl t.min) ?_
      (fun k hk => (mem_itemsInRange.1 hk).1) ?_ (by have := hs.le; omega)
    · exact hpurged
    · intro e he
      rcases hbelow e he with hlt | ⟨-, heq⟩
      · exact hmin ▸ hlt
      · exact absurd heq hne
    · intro hlt
      rw [hmin, hmax] at hlt
      rw [h.bit, hmin, if_neg]
      · exact hs.first hlt
      · intro hmod
        have hwidth := hs.width
        exact hne (eq_of_address_eq hkle le_rfl (by omega) (by omega) hmod.symm)
  · -- nothing is left in the window
    have hnil : t.itemsInRange = [] := by
      by_contra hne
      have hpos := length_pos_iff.2 hne
      apply hleft
      refine ⟨by omega, ?_⟩
      rw [allItemsInExcess, beq_eq_false_iff_ne]
      omega
    refine purged_of_least hs h hkey hnodup (by have := hs.le; omega) ?_ ?_ ?_ le_rfl
    · intro e he
      rcases hbelow e he with hlt | ⟨rfl, -⟩
      · have := hs.le
        omega
      · omega
    · intro k hk
      rw [hnil] at hk
      cases hk
    · exact fun hlt => absurd hlt (Nat.lt_irrefl _)

end

lemma bitCleared_setBit (hs : Rolling s) (hbits : t.bits = s.bits)
    (hwidth : t.maxWidth = s.maxWidth) (hmin : t.min = s.min)
    (hmax : t.maxExclusive = s.maxExclusive)
    (htotal : t.count + s.excess.length + 1 = s.count + t.excess.length) :
    BitCleared s (t.setBit key false) key := by
  have hlength : t.bits.length = t.maxWidth := by rw [hbits, hwidth, hs.length]
  refine ⟨hwidth, ?_, hmin, hmax, ?_, htotal⟩
  · exact (length_set).trans hlength
  · intro k
    rw [containsAssumeInRange_setBit hlength (hwidth ▸ hs.pos), hwidth]
    unfold containsAssumeInRange getAddress
    rw [hbits, hwidth]

structure Moved (s t : RollingBitField) : Prop where
  rolling : Rolling t
  maxWidth : t.maxWidth = s.maxWidth
  maxExclusive : t.maxExclusive = s.maxExclusive
  mem_excess : ∀ k, k ∈ t.excess ↔ k ∈ s.excess ∨ k ∈ s.itemsInRange ∧ k < t.min
  mem_items : ∀ k, k ∈ t.itemsInRange ↔ k ∈ s.itemsInRange ∧ t.min ≤ k

lemma Moved.refl (hs : Rolling s) : Moved s s := by
  refine ⟨hs, rfl, rfl, ?_, ?_⟩
  · intro k
    constructor
    · exact .inl
    · rintro (hk | ⟨hk, hlt⟩)
      · exact hk
      · exact absurd (mem_itemsInRange.1 hk).1 (Nat.not_le.2 hlt)
  · exact fun k => ⟨fun hk => ⟨hk, (mem_itemsInRange.1 hk).1⟩, And.left⟩

lemma Moved.mem_getAll (h : Moved s t) (k : Nat) : k ∈ t.getAll ↔ k ∈ s.getAll := by
  unfold getAll
  rw [mem_append, mem_append, h.mem_excess, h.mem_items]
  constructor
  · rintro ((hk | ⟨hk, -⟩) | ⟨hk, -⟩)
    · exact .inl hk
    · exact .inr hk
    · exact .inr hk
  · rintro (hk | hk)
    · exact .inl (.inl hk)
    · rcases Nat.lt_or_ge k t.min with hlt | hge
      · exact .inl (.inr ⟨hk, hlt⟩)
      · exact .inr ⟨hk, hge⟩

lemma Moved.trans (h : Moved s t) (h' : Moved t u) (hle : t.min ≤ u.min) : Moved s u := by
  refine ⟨h'.rolling, h'.maxWidth.trans h.maxWidth, h'.maxExclusive.trans h.maxExclusive, ?_, ?_⟩
  · intro k
    rw [h'.mem_excess, h.mem_excess, h.mem_items]
    constructor
    · rintro ((hk | ⟨hk, hlt⟩) | ⟨⟨hk, -⟩, hlt⟩)
      · exact .inl hk
      · exact .inr ⟨hk, by omega⟩
      · exact .inr ⟨hk, hlt⟩
    · rintro (hk | ⟨hk, hlt⟩)
      · exact .inl (.inl hk)
      · rcases Nat.lt_or_ge k t.min with hlt' | hge
        · exact .inl (.inr ⟨hk, hlt'⟩)
        · exact .inr ⟨⟨hk, hge⟩, hlt⟩
  · intro k
    rw [h'.mem_items, h.mem_items]
    constructor
    · exact fun hk => ⟨hk.1.1, hk.2⟩
    · exact fun hk => ⟨⟨hk.1, hle.trans hk.2⟩, hk.2⟩

lemma moveMinToExcess_moved (hs : Rolling s) (hlt : s.min < s.maxExclusive) :
    ∃ t, s.moveMinToExcess = some t ∧ Moved s t ∧ s.min < t.min ∧
      (∀ k ∈ s.itemsInRange, k ≠ s.min → k ∈ t.itemsInRange) ∧
      t.itemsInRange.length < s.itemsInRange.length := by
  have hnew : s.min ∉ s.excess := fun hmem => Nat.lt_irrefl _ (hs.below _ hmem)
  have hmin := hs.min_mem hlt
  unfold moveMinToExcess
  rw [if_neg hnew]
  have hcleared : BitCleared s
      (({ s with excess := s.excess ++ [s.min] } : RollingBitField).setBit s.min false) s.min := by
    refine bitCleared_setBit hs rfl rfl rfl rfl ?_
    change s.count + s.excess.length + 1 = s.count + (s.excess ++ [s.min]).length
    rw [length_append, length_singleton]
    omega
  have hpurged := purge_purged hs hcleared hmin (nodup_append.2 ⟨hs.nodup,
      nodup_singleton _, by
        intro a ha b hb hab
        rw [mem_singleton.1 hb] at hab
        exact hnew (hab ▸ ha)⟩)
    (forall_mem_append.2 ⟨fun e he => .inl (hs.below e he), forall_mem_singleton.2 (.inr ⟨rfl, rfl⟩)⟩)
  have hlt' := hpurged.rolling.below s.min (by
    rw [hpurged.excess]
    exact mem_append_right _ (mem_singleton.2 rfl))
  have hmem : ∀ k, _ ↔ k ∈ s.itemsInRange ∧ k ≠ s.min := fun k =>
    (hpurged.mem k).trans (hcleared.mem_iff hs hmin)
  refine ⟨_, rfl, ⟨hpurged.rolling, hpurged.maxWidth, hpurged.maxExclusive, ?_, ?_⟩, hlt',
    fun k hk hne => (hmem k).2 ⟨hk, hne⟩, ?_⟩
  · intro k
    rw [hpurged.excess]
    change k ∈ s.excess ++ [s.min] ↔ _
    rw [mem_append, mem_singleton]
    constructor
    · rintro (hk | rfl)
      · exact .inl hk
      · exact .inr ⟨hmin, hlt'⟩
    · rintro (hk | ⟨hk, hklt⟩)
      · exact .inl hk
      · -- any other key of the window is still in it
        right
        by_contra hne
        have hle := (mem_itemsInRange.1 ((hmem k).2 ⟨hk, hne⟩)).1
        omega
  · intro k
    rw [hmem]
    constructor
    · exact fun hk => ⟨hk.1, (mem_itemsInRange.1 ((hmem k).2 hk)).1⟩
    · rintro ⟨hk, hle⟩
      refine ⟨hk, ?_⟩
      rintro rfl
      omega
  · rw [hpurged.perm.length_eq, (hcleared.perm hs hmin).length_eq, length_cons]
    exact Nat.lt_succ_self _

/-- How the loop ends: with a window that has room for the key, from the least key that leaves it, or
with an empty window if there is none. -/
lemma makeRoom_moved (hs : Rolling s) (hlt : s.min < s.maxExclusive) {fuel : Nat}
    (hfuel : s.itemsInRange.length ≤ fuel) (key : Nat) :
    ∃ t bitsEmpty, makeRoom fuel s (key + 1) = some (t, bitsEmpty) ∧ Moved s t ∧ s.min ≤ t.min ∧
      (bitsEmpty = true → t.itemsInRange = [] ∧ ∀ b ∈ s.itemsInRange, b + s.maxWidth ≤ key) ∧
      (bitsEmpty = false → t.min < t.maxExclusive ∧ key < t.min + s.maxWidth ∧
        ∀ b ∈ s.itemsInRange, key < b + s.maxWidth → t.min ≤ b) := by
  induction fuel generalizing s with
  | zero =>
    have hnil := length_eq_zero_iff.1 (Nat.le_zero.1 hfuel)
    have := hs.itemsInRange_eq_nil_iff.1 hnil
    omega
  | succ fuel ih =>
    unfold makeRoom
    split_ifs with hroom
    · refine ⟨s, false, rfl, Moved.refl hs, le_rfl, fun h => absurd h (by decide), ?_⟩
      exact fun _ => ⟨hlt, by omega, fun b hb _ => (mem_itemsInRange.1 hb).1⟩
    · obtain ⟨t, hmove, hmoved, hmin, hkept, hlength⟩ := moveMinToExcess_moved hs hlt
      rw [hmove]
      simp only [Option.bind_eq_bind, Option.bind_some]
      -- a key that leaves room is not the one just moved
      have hroomy : ∀ b ∈ s.itemsInRange, key < b + s.maxWidth → b ∈ t.itemsInRange := by
        intro b hb hkey
        apply hkept b hb
        rintro rfl
        omega
      by_cases hall : t.allItemsInExcess = true
      · have hnil := hmoved.rolling.allItemsInExcess_iff.1 hall
        rw [if_pos hall]
        refine ⟨t, true, rfl, hmoved, hmin.le, fun _ => ⟨hnil, ?_⟩, fun h => absurd h (by decide)⟩
        intro b hb
        by_contra hkey
        have hmem := hroomy b hb (Nat.not_le.1 hkey)
        rw [hnil] at hmem
        cases hmem
      · have hne := mt hmoved.rolling.allItemsInExcess_iff.2 hall
        rw [if_neg hall]
        obtain ⟨u, bitsEmpty, hrun, hmoved', hle, hempty, hfull⟩ := ih hmoved.rolling
          (hmoved.rolling.min_lt hne) (by omega)
        rw [hmoved.maxWidth] at hempty hfull
        refine ⟨u, bitsEmpty, hrun, hmoved.trans hmoved' hle, by omega, fun h => ?_, fun h => ?_⟩
        · refine ⟨(hempty h).1, fun b hb => ?_⟩
          by_contra hkey
          exact hkey ((hempty h).2 b (hroomy b hb (Nat.not_le.1 hkey)))
        · obtain ⟨hlt', hkey, hleast⟩ := hfull h
          exact ⟨hlt', hkey, fun b hb hroom' => hleast b (hroomy b hb hroom') hroom'⟩

end Nuah.Proofs
