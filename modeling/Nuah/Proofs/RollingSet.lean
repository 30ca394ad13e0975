import Nuah.Lib.KeyedLists
import Nuah.Proofs.RollingWindow

/-!
# A rolling bit field is a set

As long as a key is not inserted below keys of the excess while the bits are empty, and the end of
the ring stays below the largest number, a rolling bit field is a finite set.
-/

namespace Nuah.Proofs

open List hiding min? contains
open RollingBitField Option

section

variable {s : RollingBitField} {key k : Nat}

def members (s : RollingBitField) : Finset Nat := s.getAll.toFinset

lemma mem_members : k ∈ members s ↔ k ∈ s.excess ∨ k ∈ s.itemsInRange := by
  rw [members, List.mem_toFinset, getAll, List.mem_append]

/-- A bit field that answers as a set does. -/
structure Refines (s : RollingBitField) (set : Finset Nat) : Prop where
  contains : ∀ k, s.contains k = true ↔ k ∈ set
  len : s.len = set.card
  min : ∀ m, s.min? = some m ↔ IsLeast (set : Set Nat) m
  remove : ∀ k, (s.remove k).1 = decide (k ∈ set)
  getAll_nodup : s.getAll.Nodup
  getAll : ∀ k, k ∈ s.getAll ↔ k ∈ set
  getAllLessThan_nodup : ∀ m, (s.getAllLessThan m).Nodup
  getAllLessThan : ∀ m k, k ∈ s.getAllLessThan m ↔ k ∈ set ∧ k < m

lemma mem_takeWhile_range' {start n bound : Nat} :
    k ∈ (range' start n).takeWhile (· < bound) ↔ k ∈ range' start n ∧ k < bound := by
  rw [KeyedLists.takeWhile_eq_filter, mem_filter, decide_eq_true_iff]
  refine Pairwise.imp (fun hlt => ?_) pairwise_lt_range'
  simp only [decide_eq_true_eq]
  exact hlt.trans

lemma getAllLessThan_sublist (s : RollingBitField) (m : Nat) :
    (s.getAllLessThan m).Sublist s.getAll :=
  filter_sublist.append ((takeWhile_sublist _).filter _)

lemma mem_getAllLessThan {m : Nat} : k ∈ s.getAllLessThan m ↔ k ∈ members s ∧ k < m := by
  unfold getAllLessThan
  rw [mem_members, mem_append, mem_filter, mem_filter, keysFrom, mem_takeWhile_range',
    itemsInRange, keysFrom, mem_filter, decide_eq_true_iff, or_and_right, and_right_comm]

namespace Rolling

lemma len_eq (h : Rolling s) : s.len = (members s).card := by
  rw [members, toFinset_card_of_nodup h.getAll_nodup, getAll, length_append]
  exact h.count

lemma min?_spec (h : Rolling s) :
    (s.min? = none ∧ members s = ∅) ∨ ∃ m, s.min? = some m ∧ IsLeast (members s : Set Nat) m := by
  have hleast : s.excess ≠ [] → ∃ m, s.excess.min? = some m ∧ IsLeast (members s : Set Nat) m := by
    intro hne
    cases hmin : s.excess.min? with
    | none => exact absurd (min?_eq_none_iff.1 hmin) hne
    | some m =>
      obtain ⟨hmem, hle⟩ := min?_eq_some_iff.1 hmin
      refine ⟨m, rfl, mem_members.2 (.inl hmem), ?_⟩
      intro k hk
      rcases mem_members.1 hk with hk | hk
      · exact hle k hk
      · exact ((h.below m hmem).trans_le (mem_itemsInRange.1 hk).1).le
  have hlen := h.len_eq
  unfold min?
  split_ifs with hzero hexcess hall
  · left
    refine ⟨rfl, ?_⟩
    rw [← Finset.card_eq_zero, ← hlen]
    exact hzero
  · right
    have hne : s.itemsInRange ≠ [] := by
      intro hnil
      apply hzero
      rw [len, h.count, hexcess, hnil]
      rfl
    refine ⟨s.min, rfl, mem_members.2 (.inr (h.min_mem (h.min_lt hne))), ?_⟩
    intro k hk
    rcases mem_members.1 hk with hk | hk
    · rw [hexcess] at hk
      cases hk
    · exact (mem_itemsInRange.1 hk).1
  · exact .inr (hleast hexcess)
  · right
    obtain ⟨m, hmin, hm⟩ := hleast hexcess
    have hmem := (min?_eq_some_iff.1 hmin).1
    refine ⟨m, ?_, hm⟩
    rw [hmin, getD_some, Nat.min_eq_right (h.below m hmem).le]

lemma min?_iff (h : Rolling s) (m : Nat) : s.min? = some m ↔ IsLeast (members s : Set Nat) m := by
  rcases h.min?_spec with ⟨hnone, hempty⟩ | ⟨m', hsome, hm'⟩
  · rw [hnone, hempty]
    constructor
    · exact fun h => absurd h (by simp)
    · exact fun h => absurd h.1 (by simp)
  · rw [hsome]
    constructor
    · rintro ⟨⟩
      exact hm'
    · exact fun hm => congrArg some (hm'.unique hm)

end Rolling

lemma remove_spec (h : Rolling s) (key : Nat) :
    Rolling (s.remove key).2 ∧ members (s.remove key).2 = (members s).erase key ∧
      (s.remove key).1 = decide (key ∈ members s) := by
  have habsent : key ∉ members s → Rolling s ∧ members s = (members s).erase key ∧
      false = decide (key ∈ members s) := by
    intro hnot
    exact ⟨h, (Finset.erase_eq_of_notMem hnot).symm, (decide_eq_false hnot).symm⟩
  unfold remove
  split_ifs with hle hlt hbit hmem
  · have hkey : key ∈ s.itemsInRange := mem_itemsInRange.2 ⟨hle, hlt, hbit⟩
    have hpos := length_pos_of_mem hkey
    have hcleared : BitCleared s
        (({ s with count := s.count - 1 } : RollingBitField).setBit key false) key := by
      refine bitCleared_setBit h rfl rfl rfl rfl ?_
      have hcount := h.count
      change s.count - 1 + s.excess.length + 1 = s.count + s.excess.length
      omega
    have hpurged := purge_purged h hcleared hkey h.nodup fun e he => .inl (h.below e he)
    refine ⟨hpurged.rolling, ?_, (decide_eq_true (mem_members.2 (.inr hkey))).symm⟩
    ext k
    rw [Finset.mem_erase, mem_members, mem_members, hpurged.mem, hpurged.excess,
      hcleared.mem_iff h hkey]
    change k ∈ s.excess ∨ _ ↔ _
    constructor
    · rintro (hk | ⟨hk, hne⟩)
      · exact ⟨by have := h.below k hk; omega, .inl hk⟩
      · exact ⟨hne, .inr hk⟩
    · rintro ⟨hne, hk | hk⟩
      · exact .inl hk
      · exact .inr ⟨hk, hne⟩
  · apply habsent
    rw [mem_members]
    rintro (hk | hk)
    · exact absurd (h.below key hk) (Nat.not_lt.2 hle)
    · exact hbit (mem_itemsInRange.1 hk).2.2
  · apply habsent
    rw [mem_members]
    rintro (hk | hk)
    · exact absurd (h.below key hk) (Nat.not_lt.2 hle)
    · exact hlt (mem_itemsInRange.1 hk).2.1
  · have hcount := h.count
    have hlength := length_erase_of_mem hmem
    have hpos := length_pos_of_mem hmem
    refine ⟨⟨h.pos, h.length, h.le, h.width, h.nodup.erase key, ?_, ?_, h.owned, h.first⟩, ?_, ?_⟩
    · exact fun e he => h.below e (mem_of_mem_erase he)
    · change s.count - 1 = (s.excess.erase key).length + s.itemsInRange.length
      omega
    · ext k
      rw [Finset.mem_erase, mem_members, mem_members]
      change k ∈ s.excess.erase key ∨ k ∈ s.itemsInRange ↔ _
      rw [h.nodup.mem_erase_iff]
      constructor
      · rintro (⟨hne, hk⟩ | hk)
        · exact ⟨hne, .inl hk⟩
        · refine ⟨?_, .inr hk⟩
          rintro rfl
          exact hle (mem_itemsInRange.1 hk).1
      · rintro ⟨hne, hk | hk⟩
        · exact .inl ⟨hne, hk⟩
        · exact .inr hk
    · exact (decide_eq_true (mem_members.2 (.inl hmem))).symm
  · apply habsent
    rw [mem_members]
    rintro (hk | hk)
    · exact hmem hk
    · exact hle (mem_itemsInRange.1 hk).1

lemma Rolling.refines (h : Rolling s) : Refines s (members s) where
  contains _ := h.contains_iff.trans mem_toFinset.symm
  len := h.len_eq
  min := h.min?_iff
  remove k := (remove_spec h k).2.2
  getAll_nodup := h.getAll_nodup
  getAll _ := mem_toFinset.symm
  getAllLessThan_nodup m := h.getAll_nodup.sublist (getAllLessThan_sublist s m)
  getAllLessThan _ _ := mem_getAllLessThan

/-- The field after the bit of a new key is set, with a window widened to it. -/
def widen (s : RollingBitField) (key low high : Nat) : RollingBitField :=
  { s.setBit key true with min := low, maxExclusive := high, count := s.count + 1 }

/-- What the insertion of a key makes of a field. -/
structure Added (s : RollingBitField) (key : Nat) (t : RollingBitField) : Prop where
  rolling : Rolling t
  members_eq : members t = insert key (members s)
  min_le : (s.min < s.maxExclusive → s.min ≤ key) → t.min ≤ key

section

variable {low high : Nat}

lemma mem_itemsInRange_widen (h : Rolling s) (hlow : low ≤ key) (hhigh : key < high)
    (hwidth : high ≤ low + s.maxWidth) (hin : ∀ k ∈ s.itemsInRange, low ≤ k ∧ k < high) :
    k ∈ (widen s key low high).itemsInRange ↔ k = key ∨ k ∈ s.itemsInRange := by
  have hbit : (widen s key low high).containsAssumeInRange k =
      if k % s.maxWidth = key % s.maxWidth then true else s.containsAssumeInRange k :=
    containsAssumeInRange_setBit h.length h.pos key k true
  rw [mem_itemsInRange, hbit]
  change low ≤ k ∧ k < high ∧ _ ↔ _
  constructor
  · rintro ⟨hle, hlt, hset⟩
    split_ifs at hset with hmod
    · exact .inl (eq_of_address_eq hle hlow (by omega) (by omega) hmod)
    · -- the owner of the bit is in the wider window as well
      obtain ⟨k', hk', hmod'⟩ := h.exists_owner hset
      obtain ⟨hle', hlt'⟩ := hin k' hk'
      have heq := eq_of_address_eq hle' hle (by omega) (by omega) hmod'
      exact .inr (heq ▸ hk')
  · rintro (rfl | hk)
    · exact ⟨hlow, hhigh, if_pos rfl⟩
    · refine ⟨(hin k hk).1, (hin k hk).2, ?_⟩
      split_ifs
      · rfl
      · exact (mem_itemsInRange.1 hk).2.2

lemma rolling_widen (h : Rolling s) (hnew : s.containsAssumeInRange key = false)
    (hlow : low ≤ key) (hhigh : key < high) (hwidth : high ≤ low + s.maxWidth)
    (hin : ∀ k ∈ s.itemsInRange, low ≤ k ∧ k < high) (hbelow : ∀ e ∈ s.excess, e < low)
    (hfirst : low = key ∨ low ∈ s.itemsInRange) : Added s key (widen s key low high) := by
  have hmem := fun k => mem_itemsInRange_widen h hlow hhigh hwidth hin (k := k)
  have hkey : key ∉ s.itemsInRange := by
    intro hk
    rw [(mem_itemsInRange.1 hk).2.2] at hnew
    cases hnew
  have hperm : (widen s key low high).itemsInRange.Perm (key :: s.itemsInRange) := by
    refine (perm_ext_iff_of_nodup (itemsInRange_nodup _)
      (nodup_cons.2 ⟨hkey, itemsInRange_nodup s⟩)).2 fun k => ?_
    rw [hmem, mem_cons]
  refine ⟨?_, ?_, fun _ => hlow⟩
  · refine ⟨h.pos, ?_, (hlow.trans_lt hhigh).le, hwidth, h.nodup, hbelow, ?_, ?_, ?_⟩
    · exact length_set.trans h.length
    · have hcount := h.count
      rw [hperm.length_eq, length_cons]
      change s.count + 1 = s.excess.length + _
      omega
    · intro k hk
      have hbit := containsAssumeInRange_setBit h.length h.pos key k true
      change (s.setBit key true).containsAssumeInRange k = true at hk
      rw [hbit] at hk
      change ∃ k', low ≤ k' ∧ k' < high ∧ k' % s.maxWidth = k % s.maxWidth
      split_ifs at hk with hmod
      · exact ⟨key, hlow, hhigh, hmod.symm⟩
      · obtain ⟨k', hk', hmod'⟩ := h.exists_owner hk
        exact ⟨k', (hin k' hk').1, (hin k' hk').2, hmod'⟩
    · intro _
      have hlowmem : low ∈ (widen s key low high).itemsInRange := (hmem low).2 hfirst
      exact (mem_itemsInRange.1 hlowmem).2.2
  · ext k
    rw [Finset.mem_insert, mem_members, mem_members, hmem]
    exact or_left_comm

end

/-- A window that is to hold the key ends below the largest number. -/
def WindowFits (s : RollingBitField) (key : Nat) : Prop :=
  ∀ b ∈ s.itemsInRange, key < b + s.maxWidth →
    ∃ b' ∈ s.itemsInRange, key < b' + s.maxWidth ∧ b' + s.maxWidth ≤ u64Max

/-- When a key can be inserted: with no bits set, it is above the excess; and a window that is to
hold it fits. -/
def Fits (s : RollingBitField) (key : Nat) : Prop :=
  (s.itemsInRange = [] → ∀ e ∈ s.excess, e < key) ∧
  (s.min ≤ key → key ∉ s.itemsInRange → WindowFits s key)

instance (s : RollingBitField) (key : Nat) : Decidable (Fits s key) := by
  unfold Fits WindowFits
  infer_instance

lemma updateBits_true (h : Rolling s) (hnil : s.itemsInRange = []) (hkey : key < u64Max) :
    s.updateBits key true = some (widen s key key (key + 1)) := by
  have hnext : checkedAddU64 key 1 = some (key + 1) := checkedAddU64_eq_some.2 ⟨hkey, rfl⟩
  unfold updateBits
  rw [h.not_contains_of_nil hnil key, hnext]
  rfl

lemma updateBits_true_added (h : Rolling s) (hnil : s.itemsInRange = [])
    (habove : ∀ e ∈ s.excess, e < key) : Added s key (widen s key key (key + 1)) := by
  have hpos := h.pos
  refine rolling_widen h (h.not_contains_of_nil hnil key) le_rfl (Nat.lt_succ_self key) (by omega)
    ?_ habove (.inl rfl)
  intro k hk
  rw [hnil] at hk
  cases hk

lemma updateBits_false (h : Rolling s) (hlt : s.min < s.maxExclusive) (hle : s.min ≤ key)
    (hroom : key < s.min + s.maxWidth) (hkey : key < u64Max) (hnew : key ∉ s.itemsInRange) :
    if s.min + s.maxWidth ≤ u64Max then
      ∃ t, s.updateBits key false = some t ∧ Added s key t
    else s.updateBits key false = none := by
  have hnext : checkedAddU64 key 1 = some (key + 1) := checkedAddU64_eq_some.2 ⟨hkey, rfl⟩
  have hbit : s.containsAssumeInRange key = false := by
    rcases Nat.lt_or_ge key s.maxExclusive with hkeylt | hge
    · exact Bool.eq_false_iff.2 fun hbit => hnew (mem_itemsInRange.2 ⟨hle, hkeylt, hbit⟩)
    · exact h.not_contains_of_ge hge hroom
  have hwidth := h.width
  unfold updateBits
  rw [hbit, hnext]
  simp only [Bool.false_eq_true, if_false, bind_eq_bind, bind_some]
  change if s.min + s.maxWidth ≤ u64Max then
    ∃ t, ((checkedAddU64 (Min.min s.min key) s.maxWidth).bind fun reach =>
      if max s.maxExclusive (key + 1) ≤ reach then
        some (widen s key (Min.min s.min key) (max s.maxExclusive (key + 1))) else none) = some t ∧
      Added s key t
    else ((checkedAddU64 (Min.min s.min key) s.maxWidth).bind fun reach =>
      if max s.maxExclusive (key + 1) ≤ reach then
        some (widen s key (Min.min s.min key) (max s.maxExclusive (key + 1))) else none) = none
  rw [Nat.min_eq_left hle]
  split_ifs with hreach
  · rw [checkedAddU64_eq_some.2 ⟨hreach, rfl⟩, bind_some, if_pos (by omega)]
    refine ⟨_, rfl, rolling_widen h hbit hle (by omega) (by omega) ?_ h.below
      (.inr (h.min_mem hlt))⟩
    intro k hk
    obtain ⟨hkle, hklt, -⟩ := mem_itemsInRange.1 hk
    omega
  · rw [checkedAddU64, if_neg hreach]
    rfl

lemma insert_of_nil (h : Rolling s) (hnil : s.itemsInRange = []) (hkey : key < u64Max) :
    s.insert key = some (widen s key key (key + 1)) := by
  unfold RollingBitField.insert
  rw [if_pos (.inr (h.allItemsInExcess_iff.2 hnil)), updateBits_true h hnil hkey]

lemma itemsInRange_length_le (s : RollingBitField) :
    s.itemsInRange.length ≤ s.maxExclusive - s.min := by
  refine (length_filter_le _ _).trans ?_
  rw [keysFrom, length_range']

section

variable (h : Rolling s)

include h

lemma insert_above (hlt : s.min < s.maxExclusive) (hge : s.maxExclusive ≤ key)
    (hkey : key < u64Max) :
    (WindowFits s key → ∃ t, s.insert key = some t ∧ Added s key t) ∧
    (¬WindowFits s key → s.insert key = none) := by
  have hnext : checkedAddU64 key 1 = some (key + 1) := checkedAddU64_eq_some.2 ⟨hkey, rfl⟩
  obtain ⟨t, bitsEmpty, hrun, hmoved, hle, hempty, hfull⟩ :=
    makeRoom_moved h hlt (itemsInRange_length_le s) key
  have hunfold : s.insert key = t.updateBits key bitsEmpty := by
    unfold RollingBitField.insert
    rw [if_neg (h.not_bitsEmpty hlt), if_neg (by omega), if_neg (by omega), hnext]
    simp [hrun]
  have hmembers : members t = members s := by
    ext k
    rw [members, members, List.mem_toFinset, List.mem_toFinset]
    exact hmoved.mem_getAll k
  have hmax := hmoved.maxExclusive
  have hend := hmoved.rolling.le
  have hadded : ∀ u, Added t key u → Added s key u := fun u hu =>
    ⟨hu.rolling, hmembers ▸ hu.members_eq, fun _ => hu.min_le (by omega)⟩
  rw [hunfold]
  cases bitsEmpty with
  | true =>
    obtain ⟨hnone, hfar⟩ := hempty rfl
    constructor
    · intro _
      rw [updateBits_true hmoved.rolling hnone hkey]
      refine ⟨_, rfl, hadded _ (updateBits_true_added hmoved.rolling hnone ?_)⟩
      intro e he
      have hlow := hmoved.rolling.below e he
      omega
    · intro hover
      exact absurd (fun b hb hroom => absurd (hfar b hb) (Nat.not_le.2 hroom)) hover
  | false =>
    obtain ⟨htlt, hroom, hleast⟩ := hfull rfl
    have hfirst := ((hmoved.mem_items t.min).1 (hmoved.rolling.min_mem htlt)).1
    have hnew : key ∉ t.itemsInRange := by
      intro hmem
      have := (mem_itemsInRange.1 hmem).2.1
      omega
    have hupdate := updateBits_false hmoved.rolling htlt (by omega) (hmoved.maxWidth ▸ hroom) hkey
      hnew
    rw [hmoved.maxWidth] at hupdate
    constructor
    · intro hfit
      obtain ⟨b', hb', hroom', hreach⟩ := hfit t.min hfirst hroom
      have hle' := hleast b' hb' hroom'
      rw [if_pos (by omega)] at hupdate
      exact hupdate.imp fun u hu => ⟨hu.1, hadded u hu.2⟩
    · intro hover
      rwa [if_neg fun hreach => hover fun _ _ _ => ⟨t.min, hfirst, hroom, hreach⟩] at hupdate

lemma insert_inside (hle : s.min ≤ key) (hkeylt : key < s.maxExclusive)
    (hkey : key < u64Max) (hnew : key ∉ s.itemsInRange) :
    (WindowFits s key → ∃ t, s.insert key = some t ∧ Added s key t) ∧
    (¬WindowFits s key → s.insert key = none) := by
  have hlt := hle.trans_lt hkeylt
  have hwidth := h.width
  have hfirst := h.min_mem hlt
  have hupdate := updateBits_false h hlt hle (by omega) hkey hnew
  have hunfold : s.insert key = s.updateBits key false := by
    unfold RollingBitField.insert
    rw [if_neg (h.not_bitsEmpty hlt), if_neg (by omega), if_pos hkeylt]
  rw [hunfold]
  constructor
  · intro hfit
    obtain ⟨b', hb', -, hreach⟩ := hfit s.min hfirst (by omega)
    have hle' := (mem_itemsInRange.1 hb').1
    rwa [if_pos (by omega)] at hupdate
  · intro hover
    rwa [if_neg fun hreach => hover fun _ _ _ => ⟨s.min, hfirst, by omega, hreach⟩] at hupdate

lemma insert_member (hmem : key ∈ s.itemsInRange) : s.insert key = some s := by
  obtain ⟨hle, hkeylt, hbit⟩ := mem_itemsInRange.1 hmem
  unfold RollingBitField.insert
  rw [if_neg (h.not_bitsEmpty (hle.trans_lt hkeylt)), if_neg (by omega), if_pos hkeylt, updateBits,
    if_pos hbit]

lemma insert_below (hlt : s.min < s.maxExclusive) (hkeylt : key < s.min) :
    ∃ t, s.insert key = some t ∧ Added s key t := by
  unfold RollingBitField.insert
  rw [if_neg (h.not_bitsEmpty hlt), if_pos hkeylt]
  split_ifs with hmem
  · refine ⟨s, rfl, h, (Finset.insert_eq_of_mem ?_).symm, fun hle => hle hlt⟩
    exact mem_members.2 (.inl hmem)
  · refine ⟨_, rfl, ⟨h.pos, h.length, h.le, h.width, ?_, ?_, ?_, h.owned, h.first⟩, ?_,
      fun hle => hle hlt⟩
    · exact nodup_append.2 ⟨h.nodup, nodup_singleton _, fun a ha b hb hab =>
        hmem (mem_singleton.1 hb ▸ hab ▸ ha)⟩
    · exact forall_mem_append.2 ⟨h.below, forall_mem_singleton.2 hkeylt⟩
    · have hcount := h.count
      change s.count + 1 = (s.excess ++ [key]).length + s.itemsInRange.length
      rw [length_append, length_singleton]
      omega
    · ext k
      rw [Finset.mem_insert, mem_members, mem_members]
      change k ∈ s.excess ++ [key] ∨ k ∈ s.itemsInRange ↔ _
      rw [mem_append, mem_singleton]
      constructor
      · rintro ((hk | rfl) | hk)
        · exact .inr (.inl hk)
        · exact .inl rfl
        · exact .inr (.inr hk)
      · rintro (rfl | hk | hk)
        · exact .inl (.inr rfl)
        · exact .inl (.inl hk)
        · exact .inr hk

lemma insert_of_fits (hkey : key ∉ s.itemsInRange → key < u64Max) (hfits : Fits s key) :
    ∃ t, s.insert key = some t ∧ Added s key t := by
  by_cases hnil : s.itemsInRange = []
  · have hkey := hkey (hnil ▸ not_mem_nil)
    exact ⟨_, insert_of_nil h hnil hkey, updateBits_true_added h hnil (hfits.1 hnil)⟩
  · have hlt := h.min_lt hnil
    by_cases hmem : key ∈ s.itemsInRange
    · refine ⟨s, insert_member h hmem, h, (Finset.insert_eq_of_mem ?_).symm, fun hle => hle hlt⟩
      exact mem_members.2 (.inr hmem)
    · have hkey := hkey hmem
      rcases Nat.lt_or_ge key s.min with hlow | hle
      · exact insert_below h hlt hlow
      · rcases Nat.lt_or_ge key s.maxExclusive with hin | habove
        · exact (insert_inside h hle hin hkey hmem).1 (hfits.2 hle hmem)
        · exact (insert_above h hlt habove hkey).1 (hfits.2 hle hmem)

lemma insert_eq_none (hkey : key < u64Max) (hnil : s.itemsInRange ≠ []) (hle : s.min ≤ key)
    (hmem : key ∉ s.itemsInRange) (hover : ¬WindowFits s key) : s.insert key = none := by
  rcases Nat.lt_or_ge key s.maxExclusive with hin | habove
  · exact (insert_inside h hle hin hkey hmem).2 hover
  · exact (insert_above h (h.min_lt hnil) habove hkey).2 hover

/-- With no bits set, a key below the excess makes the field forget the excess above it, and one
of the excess is counted twice. -/
lemma not_refines_of_nil {e : Nat} (he : e ∈ s.excess) (hle : key ≤ e) :
    ¬Refines (widen s key key (key + 1)) (insert key (members s)) := by
  intro hrefines
  have hmem : e ∈ members s := mem_members.2 (.inl he)
  rcases hle.eq_or_lt with rfl | hlt
  · have hlen := hrefines.len
    rw [Finset.insert_eq_of_mem hmem, ← h.len_eq] at hlen
    change s.count + 1 = s.count at hlen
    omega
  · have hcontains := (hrefines.contains e).2 (Finset.mem_insert_of_mem hmem)
    unfold contains at hcontains
    rw [if_neg (by change ¬e < key + 1; omega)] at hcontains
    cases hcontains

lemma not_refines_of_not_fits (hkey : key < u64Max) (hfits : ¬Fits s key) :
    ¬∃ t, s.insert key = some t ∧ Refines t (insert key (members s)) := by
  rintro ⟨t, hinsert, hrefines⟩
  by_cases hnil : s.itemsInRange = []
  · rw [insert_of_nil h hnil hkey] at hinsert
    cases hinsert
    have hlow : ¬∀ e ∈ s.excess, e < key := by
      intro habove
      refine hfits ⟨fun _ => habove, fun _ _ b hb => ?_⟩
      rw [hnil] at hb
      cases hb
    push Not at hlow
    obtain ⟨e, he, hle⟩ := hlow
    exact not_refines_of_nil h he hle hrefines
  · have hwindow : s.min ≤ key ∧ key ∉ s.itemsInRange ∧ ¬WindowFits s key := by
      by_contra hnot
      refine hfits ⟨fun hnil' => absurd hnil' hnil, fun hle hmem => ?_⟩
      by_contra hover
      exact hnot ⟨hle, hmem, hover⟩
    obtain ⟨hle, hmem, hover⟩ := hwindow
    rw [insert_eq_none h hkey hnil hle hmem hover] at hinsert
    cases hinsert

end

end

/-- A call that changes the set. -/
inductive SetCall where
  | insert (key : Nat)
  | remove (key : Nat)
deriving Repr, DecidableEq

def SetCall.arg : SetCall → Nat
  | .insert key => key
  | .remove key => key

def SetCall.exec (s : RollingBitField) : SetCall → Option RollingBitField
  | .insert key => s.insert key
  | .remove key => some (s.remove key).2

def SetCall.apply (set : Finset Nat) : SetCall → Finset Nat
  | .insert key => Insert.insert key set
  | .remove key => set.erase key

/-- One call after the other. -/
def execCalls (s : RollingBitField) (calls : List SetCall) : Option RollingBitField :=
  calls.foldlM SetCall.exec s

def applyCalls (set : Finset Nat) (calls : List SetCall) : Finset Nat :=
  calls.foldl SetCall.apply set

def SetCall.Fits (s : RollingBitField) : SetCall → Prop
  | .insert key => Proofs.Fits s key
  | .remove _ => True

instance (s : RollingBitField) (call : SetCall) : Decidable (call.Fits s) := by
  cases call <;> unfold SetCall.Fits <;> infer_instance

/-- Every key that is inserted fits at that time. -/
def AllFit (s : RollingBitField) : List SetCall → Prop
  | [] => True
  | call :: calls => call.Fits s ∧ (match call.exec s with
    | some t => AllFit t calls
    | none => True)

instance decidableAllFit (s : RollingBitField) : (calls : List SetCall) → Decidable (AllFit s calls)
  | [] => isTrue trivial
  | call :: calls =>
    match hexec : call.exec s with
    | some t =>
      have := decidableAllFit t calls
      decidable_of_iff (call.Fits s ∧ AllFit t calls) (by rw [AllFit, hexec])
    | none => decidable_of_iff (call.Fits s ∧ True) (by rw [AllFit, hexec])

section

variable {s : RollingBitField}

lemma exec_rolling (h : Rolling s) {call : SetCall} (hkey : call.arg < u64Max)
    (hfits : call.Fits s) :
    ∃ t, call.exec s = some t ∧ Rolling t ∧ members t = call.apply (members s) := by
  cases call with
  | insert key =>
    obtain ⟨t, hinsert, hadded⟩ := insert_of_fits h (fun _ => hkey) hfits
    exact ⟨t, hinsert, hadded.rolling, hadded.members_eq⟩
  | remove key => exact ⟨_, rfl, (remove_spec h key).1, (remove_spec h key).2.1⟩

lemma exec_iff_fits (h : Rolling s) (call : SetCall) (hkey : call.arg < u64Max) :
    (∃ t, call.exec s = some t ∧ Refines t (call.apply (members s))) ↔ call.Fits s := by
  refine ⟨fun hexec => ?_, fun hfits => ?_⟩
  · cases call with
    | insert key =>
      by_contra hfits
      exact not_refines_of_not_fits h hkey hfits hexec
    | remove key => trivial
  · obtain ⟨t, hexec, ht, hmembers⟩ := exec_rolling h hkey hfits
    exact ⟨t, hexec, hmembers ▸ ht.refines⟩

lemma refines_iff_allFit (h : Rolling s) (calls : List SetCall)
    (hkeys : ∀ call ∈ calls, call.arg < u64Max) :
    (∀ n, ∃ t, execCalls s (calls.take n) = some t ∧
      Refines t (applyCalls (members s) (calls.take n))) ↔ AllFit s calls := by
  induction calls generalizing s with
  | nil =>
    refine ⟨fun _ => trivial, fun _ n => ⟨s, ?_, ?_⟩⟩
    · rw [take_nil]
      rfl
    · rw [take_nil]
      exact h.refines
  | cons call calls ih =>
    have hkey := hkeys call mem_cons_self
    have hrest : ∀ call ∈ calls, call.arg < u64Max :=
      fun c hc => hkeys c (mem_cons_of_mem _ hc)
    -- the runs that begin with the call are the runs from where it leads
    have hstep : ∀ {t}, call.exec s = some t → members t = call.apply (members s) →
        ∀ n, (∃ u, execCalls s ((call :: calls).take (n + 1)) = some u ∧
          Refines u (applyCalls (members s) ((call :: calls).take (n + 1)))) ↔
        ∃ u, execCalls t (calls.take n) = some u ∧
          Refines u (applyCalls (members t) (calls.take n)) := by
      intro t hexec hmembers n
      rw [take_succ_cons, execCalls, foldlM_cons, hexec, hmembers]
      rfl
    constructor
    · intro hall
      have hfirst := hall 1
      rw [take_succ_cons, take_zero] at hfirst
      have hfits : call.Fits s := by
        apply (exec_iff_fits h call hkey).1
        obtain ⟨t, hexec, hrefines⟩ := hfirst
        rw [execCalls, foldlM_cons] at hexec
        obtain ⟨u, hu, heq⟩ := bind_eq_some_iff.1 hexec
        cases heq
        exact ⟨_, hu, hrefines⟩
      obtain ⟨t, hexec, ht, hmembers⟩ := exec_rolling h hkey hfits
      refine ⟨hfits, ?_⟩
      rw [hexec]
      exact (ih ht hrest).1 fun n => (hstep hexec hmembers n).1 (hall (n + 1))
    · rintro ⟨hfits, hallFit⟩ n
      obtain ⟨t, hexec, ht, hmembers⟩ := exec_rolling h hkey hfits
      rw [hexec] at hallFit
      cases n with
      | zero => exact ⟨s, rfl, h.refines⟩
      | succ n => exact (hstep hexec hmembers n).2 ((ih ht hrest).2 hallFit n)

lemma new_rolling {width : Nat} (hnew : new width = some s) : Rolling s ∧ members s = ∅ := by
  unfold new at hnew
  split_ifs at hnew with hwidth
  cases hnew
  have hbit : ∀ k, containsAssumeInRange
      ⟨width, 0, 0, replicate width false, 0, []⟩ k = false := by
    intro k
    unfold containsAssumeInRange
    rw [getElem?_replicate]
    split_ifs <;> rfl
  refine ⟨⟨hwidth.1, length_replicate, le_rfl, Nat.zero_le _, nodup_nil, ?_, rfl, ?_, ?_⟩,
    rfl⟩
  · exact fun e he => absurd he not_mem_nil
  · intro k hk
    rw [hbit] at hk
    cases hk
  · exact fun hlt => absurd hlt (Nat.lt_irrefl 0)

end

/-- A bit field of any power of two as its width is a set after each of the calls if and only if
every key that is inserted fits. -/
theorem rollingBitField_refines_set_iff (n : Nat) (calls : List SetCall)
    (hkeys : ∀ call ∈ calls, call.arg < u64Max) :
    ∃ s, new (2 ^ n) = some s ∧
      ((∀ i, ∃ t, execCalls s (calls.take i) = some t ∧
        Refines t (applyCalls ∅ (calls.take i))) ↔ AllFit s calls) := by
  have hnew : 0 < 2 ^ n ∧ 2 ^ n = 2 ^ (2 ^ n).log2 := by
    rw [Nat.log2_two_pow]
    exact ⟨Nat.two_pow_pos n, rfl⟩
  have hsome : new (2 ^ n) = some ⟨2 ^ n, 0, 0, replicate (2 ^ n) false, 0, []⟩ :=
    if_pos hnew
  obtain ⟨hrolling, hempty⟩ := new_rolling hsome
  refine ⟨_, hsome, ?_⟩
  rw [← hempty]
  exact refines_iff_allFit hrolling calls hkeys

/-- With a window that was moved past a key and emptied again, and keys inserted above the excess. -/
theorem movedWindow_refines_set :
    ∃ s, new (2 ^ 2) = some s ∧
      ∃ t, execCalls s [.insert 5, .insert 10, .insert 6, .remove 10, .insert 8, .remove 5] = some t ∧
        Refines t {6, 8} := by
  obtain ⟨s, hnew, hiff⟩ := rollingBitField_refines_set_iff 2
    [.insert 5, .insert 10, .insert 6, .remove 10, .insert 8, .remove 5] (by decide)
  cases hnew
  obtain ⟨t, hexec, hrefines⟩ := hiff.2 (by decide +kernel) 6
  have hset : applyCalls ∅ (take 6
      [.insert 5, .insert 10, .insert 6, .remove 10, .insert 8, .remove 5]) = {6, 8} := by decide
  exact ⟨_, rfl, t, hexec, hset ▸ hrefines⟩

/-- With all keys in the excess, a lower key hides the excess, and a key of the excess is counted
once more. Near the largest number, the end of the window overflows. -/
theorem emptied_window_not_set :
    ∃ s, new 4 = some s ∧
      (∃ t, execCalls s [.insert 5, .insert 10, .remove 10, .insert 3] = some t ∧
        t.contains 5 = false ∧
        ¬Refines t (applyCalls ∅ [.insert 5, .insert 10, .remove 10, .insert 3])) ∧
      (∃ t, execCalls s [.insert 5, .insert 10, .remove 10, .insert 5] = some t ∧ t.len = 2 ∧
        ¬Refines t (applyCalls ∅ [.insert 5, .insert 10, .remove 10, .insert 5])) ∧
      execCalls s [.insert (u64Max - 2), .insert (u64Max - 1)] = none := by
  refine ⟨_, rfl, ⟨_, rfl, by decide +kernel, fun h => ?_⟩, ⟨_, rfl, by decide +kernel, fun h => ?_⟩,
    by decide +kernel⟩
  · exact absurd ((h.contains 5).2 (by decide +kernel)) (by decide +kernel)
  · exact absurd h.len (by decide +kernel)

end Nuah.Proofs
