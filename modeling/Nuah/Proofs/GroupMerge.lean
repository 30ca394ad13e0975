import Nuah.AccountsDedup
import Nuah.Lib.KeyedLists

/-!
# Merging the slot groups of a bin

An entry that is still due lies at or behind the pointer of its own group, or its pubkey is
that of the pointer of a later group. This makes the lowest pointer that of the newest version
of the lowest pubkey.
-/

namespace Nuah.Proofs

open Nuah.AccountsHasher List

variable {j : Nat} {a b : CalculateHashIntermediate} {next : Option ItemLocation}
  {last : SlotGroupPointer}

variable {p : SlotGroupPointer} {item : CalculateHashIntermediate} {i index bins : Nat}

section Merge

variable {data : List (List CalculateHashIntermediate)} {bin : Nat} {binner : Pubkey → Nat}

def entryAt (data : List (List CalculateHashIntermediate)) (p : SlotGroupPointer) :
    Option CalculateHashIntermediate :=
  data[p.slotGroupIndex]?.bind fun group => group[p.offset]?

/-- The groups are sorted by pubkey. -/
def SortedGroups (data : List (List CalculateHashIntermediate)) : Prop :=
  ∀ group ∈ data, group.Pairwise fun a b => a.pubkey ≤ b.pubkey

lemma entryAt_eq_some :
    entryAt data p = some item ↔
      ∃ group, data[p.slotGroupIndex]? = some group ∧ group[p.offset]? = some item :=
  Option.bind_eq_some_iff

lemma entryAt_of_group {g : Nat} {group : List CalculateHashIntermediate}
    (h : data[g]? = some group) (j : Nat) : entryAt data ⟨g, j⟩ = group[j]? := by
  rw [entryAt, h, Option.bind_some]

lemma pubkeyAt_eq (p : SlotGroupPointer) :
    pubkeyAt data p = (entryAt data p).map CalculateHashIntermediate.pubkey := by
  unfold pubkeyAt entryAt
  cases data[p.slotGroupIndex]? with
  | none => rfl
  | some group =>
    simp only [Option.bind_eq_bind, Option.bind_some]
    cases group[p.offset]? <;> rfl

lemma SortedGroups.pubkey_le (hsorted : SortedGroups data) {g : Nat} (hij : i ≤ j)
    (ha : entryAt data ⟨g, i⟩ = some a) (hb : entryAt data ⟨g, j⟩ = some b) :
    a.pubkey ≤ b.pubkey := by
  obtain ⟨group, hgroup, ha⟩ := entryAt_eq_some.1 ha
  rw [entryAt_of_group hgroup] at hb
  exact BinarySearch.rel_of_le (hsorted group (mem_of_getElem? hgroup)) (fun _ => le_rfl) hij ha hb

variable (bin binner) in
lemma skipKey_spec (key : Pubkey) (g : Nat) (rest : List CalculateHashIntermediate) (index : Nat) :
    ∃ n next, skipKey bin binner key g rest index = (index + n, next) ∧ n ≤ rest.length ∧
      (∀ item ∈ rest.take n, item.pubkey = key) ∧
      (∀ item, rest[n]? = some item → item.pubkey ≠ key) ∧
      ((next = none ∧ ∀ item, rest[n]? = some item → bin < binner item.pubkey) ∨
        ∃ item, rest[n]? = some item ∧ binner item.pubkey ≤ bin ∧
          next = some ⟨item.pubkey, ⟨g, index + n⟩⟩) := by
  induction rest generalizing index with
  | nil =>
    refine ⟨0, none, rfl, Nat.zero_le _, ?_, ?_, .inl ⟨rfl, ?_⟩⟩
    · rintro item ⟨⟩
    · rintro item ⟨⟩
    · rintro item ⟨⟩
  | cons item rest ih =>
    rw [skipKey]
    by_cases hkey : item.pubkey = key
    · obtain ⟨n, next, hskip, hle, hsame, hother, hnext⟩ := ih (index + 1)
      rw [if_pos hkey, hskip, Nat.add_right_comm index 1 n]
      refine ⟨n + 1, next, rfl, Nat.succ_le_succ hle, ?_, hother, ?_⟩
      · rw [take_succ_cons]
        exact forall_mem_cons.2 ⟨hkey, hsame⟩
      · rw [Nat.add_right_comm index 1 n] at hnext
        exact hnext
    · have hfirst : ∀ item', (item :: rest)[0]? = some item' → item' = item := by
        rintro item' ⟨⟩
        rfl
      rw [if_neg hkey]
      by_cases hbin : bin < binner item.pubkey
      · rw [if_pos hbin]
        refine ⟨0, none, rfl, Nat.zero_le _, ?_, ?_, .inl ⟨rfl, ?_⟩⟩
        · rintro item' ⟨⟩
        · intro item' hitem'
          exact hfirst item' hitem' ▸ hkey
        · intro item' hitem'
          exact hfirst item' hitem' ▸ hbin
      · rw [if_neg hbin]
        refine ⟨0, _, rfl, Nat.zero_le _, ?_, ?_, .inr ⟨item, rfl, Nat.le_of_not_lt hbin, rfl⟩⟩
        · rintro item' ⟨⟩
        · intro item' hitem'
          exact hfirst item' hitem' ▸ hkey

/-- What `get_item` yields at a pointer: the last entry with its pubkey, and the place right behind
it if the bin goes on there. -/
structure Taken (data : List (List CalculateHashIntermediate)) (bin : Nat) (binner : Pubkey → Nat)
    (p : SlotGroupPointer) (key : Pubkey) (item : CalculateHashIntermediate)
    (next : Option ItemLocation) (last : Nat) : Prop where
  entry : entryAt data ⟨p.slotGroupIndex, last⟩ = some item
  same : item.pubkey = key
  le : p.offset ≤ last
  behind : ∀ j item', last < j → entryAt data ⟨p.slotGroupIndex, j⟩ = some item' →
    key < item'.pubkey ∧
      (binner item'.pubkey = bin → ∃ loc, next = some loc ∧ loc.pointer.slotGroupIndex = p.slotGroupIndex ∧
        loc.pointer.offset ≤ j)
  following : ∀ loc, next = some loc → loc.pointer.slotGroupIndex = p.slotGroupIndex ∧ key < loc.key ∧
    ∃ item', entryAt data loc.pointer = some item' ∧ item'.pubkey = loc.key ∧ binner loc.key = bin

lemma getItem_spec (hsorted : SortedGroups data) (hmono : Monotone binner)
    {first : CalculateHashIntermediate} (hfirst : entryAt data p = some first)
    (hbin : binner first.pubkey = bin) :
    ∃ item next last, getItem data bin binner ⟨first.pubkey, p⟩ = some (item, next) ∧
      Taken data bin binner p first.pubkey item next last := by
  obtain ⟨g, o⟩ := p
  obtain ⟨group, hgroup, ho⟩ := entryAt_eq_some.1 hfirst
  have hentry := entryAt_of_group hgroup
  obtain ⟨n, next, hskip, hle, hsame, hother, hnext⟩ :=
    skipKey_spec bin binner first.pubkey g (group.drop (o + 1)) (o + 1)
  have holt := (List.getElem?_eq_some_iff.1 ho).1
  rw [List.length_drop] at hle
  -- The entries up to the last one taken all have the pubkey.
  have hlast : ∃ item, group[o + n]? = some item ∧ item.pubkey = first.pubkey := by
    cases n with
    | zero => exact ⟨first, ho, rfl⟩
    | succ n =>
      have hlt : o + (n + 1) < group.length := by omega
      refine ⟨group[o + (n + 1)], getElem?_eq_getElem hlt, hsame _ ?_⟩
      refine mem_of_getElem? (i := n) ?_
      rw [getElem?_take_of_lt (Nat.lt_succ_self n), getElem?_drop,
        show o + 1 + n = o + (n + 1) by omega, getElem?_eq_getElem hlt]
  obtain ⟨item, hitem, hkey⟩ := hlast
  have hbehind : ∀ {j item'}, o + n < j → group[j]? = some item' → ∃ after,
      group[o + 1 + n]? = some after ∧ first.pubkey < after.pubkey ∧ after.pubkey ≤ item'.pubkey := by
    intro j item' hj hitem'
    have hjlt := (List.getElem?_eq_some_iff.1 hitem').1
    have hlt : o + 1 + n < group.length := by omega
    have hafter := List.getElem?_eq_getElem hlt
    have hafter' := (hentry _).trans hafter
    refine ⟨_, hafter, ?_, hsorted.pubkey_le (by omega : o + 1 + n ≤ j) hafter'
      ((hentry j).trans hitem')⟩
    have hne := hother group[o + 1 + n] (by rw [getElem?_drop, hafter])
    have hle' := hsorted.pubkey_le (by omega : o ≤ o + 1 + n) hfirst hafter'
    exact lt_of_le_of_ne hle' hne.symm
  refine ⟨item, next, o + n, ?_, (hentry _).trans hitem, hkey, Nat.le_add_right _ _, ?_, ?_⟩
  · unfold getItem
    simp [hgroup, hskip, show o + 1 + n - 1 = o + n by omega, hitem]
  · intro j item' hj hitem'
    obtain ⟨after, hafter, hlt, hle'⟩ := hbehind hj ((hentry j).symm.trans hitem')
    refine ⟨hlt.trans_le hle', fun hbin' => ?_⟩
    rcases hnext with ⟨-, hnone⟩ | ⟨item'', -, -, rfl⟩
    · have hgt := hnone after (by rw [getElem?_drop, hafter])
      have hmono' := hmono hle'
      omega
    · exact ⟨_, rfl, rfl, show o + 1 + n ≤ j by omega⟩
  · rintro loc rfl
    rcases hnext with ⟨hnone, -⟩ | ⟨item'', hitem'', hle'', hloc⟩
    · cases hnone
    · cases hloc
      rw [getElem?_drop] at hitem''
      obtain ⟨after, hafter, hlt, -⟩ := hbehind (by omega : o + n < o + 1 + n) hitem''
      obtain rfl : after = item'' := Option.mem_unique hafter hitem''
      refine ⟨rfl, hlt, after, (hentry _).trans hafter, rfl, le_antisymm hle'' ?_⟩
      rw [← hbin]
      exact hmono hlt.le

def keyAt (data : List (List CalculateHashIntermediate)) (p : SlotGroupPointer) : Pubkey :=
  ((entryAt data p).map CalculateHashIntermediate.pubkey).getD 0

lemma keyAt_eq (h : entryAt data p = some item) : keyAt data p = item.pubkey := by
  rw [keyAt, h]
  rfl

/-- The pointers reach every entry of the bin that is still due, and only such. -/
structure Reaches (data : List (List CalculateHashIntermediate)) (bin : Nat) (binner : Pubkey → Nat)
    (due : Nat → Pubkey → Prop) (pointers : List SlotGroupPointer) : Prop where
  valid : ∀ p ∈ pointers, ∃ item, entryAt data p = some item ∧ binner item.pubkey = bin ∧
    due p.slotGroupIndex item.pubkey
  groups : (pointers.map SlotGroupPointer.slotGroupIndex).Nodup
  reached : ∀ g j item, entryAt data ⟨g, j⟩ = some item → binner item.pubkey = bin →
    due g item.pubkey →
    (∃ p ∈ pointers, p.slotGroupIndex = g ∧ p.offset ≤ j) ∨
      ∃ p ∈ pointers, g < p.slotGroupIndex ∧ keyAt data p = item.pubkey

def Onward (data : List (List CalculateHashIntermediate)) (bin : Nat) (binner : Pubkey → Nat)
    (due : Nat → Pubkey → Prop) : Prop :=
  ∀ p item key, entryAt data p = some item → binner item.pubkey = bin → due p.slotGroupIndex key →
    key < item.pubkey → due p.slotGroupIndex item.pubkey

variable {due : Nat → Pubkey → Prop} {pointers pointers' : List SlotGroupPointer}

lemma Reaches.perm (h : Reaches data bin binner due pointers) (hperm : pointers.Perm pointers') :
    Reaches data bin binner due pointers' := by
  refine ⟨fun p hp => h.valid p (hperm.mem_iff.2 hp), ?_, fun g j item hitem hbin hdue => ?_⟩
  · exact (hperm.map _).nodup_iff.1 h.groups
  · rcases h.reached g j item hitem hbin hdue with ⟨p, hp, hrest⟩ | ⟨p, hp, hrest⟩
    · exact .inl ⟨p, hperm.mem_iff.1 hp, hrest⟩
    · exact .inr ⟨p, hperm.mem_iff.1 hp, hrest⟩

/-- A pointer gives way to the next one of its group. Its pubkey is not due any more, or a later group
has a pointer for it. -/
lemma Reaches.advance (hsorted : SortedGroups data) {due' : Nat → Pubkey → Prop} {last : Nat}
    (h : Reaches data bin binner due (p :: pointers))
    (htaken : Taken data bin binner p (keyAt data p) item next last)
    (hdue : ∀ g key, due' g key → due g key)
    (hrest : ∀ q ∈ pointers, due' q.slotGroupIndex (keyAt data q))
    (hnext : ∀ loc, next = some loc → due' p.slotGroupIndex loc.key)
    (hkey : (∀ g, ¬due' g (keyAt data p)) ∨ ∃ q ∈ pointers, p.slotGroupIndex < q.slotGroupIndex ∧ keyAt data q = keyAt data p) :
    Reaches data bin binner due' (next.toList.map ItemLocation.pointer ++ pointers) := by
  obtain ⟨first, hfirst, -, -⟩ := h.valid p (mem_cons_self ..)
  refine ⟨?_, ?_, ?_⟩
  · intro q hq
    rcases mem_append.1 hq with hq | hq
    · obtain ⟨loc, hloc, rfl⟩ := mem_map.1 hq
      have hsome := Option.mem_toList.1 hloc
      obtain ⟨hgroup, -, item', hitem', hsame, hbin⟩ := htaken.following loc hsome
      refine ⟨item', hitem', hsame ▸ hbin, ?_⟩
      rw [hgroup, hsame]
      exact hnext loc hsome
    · obtain ⟨item', hitem', hbin, -⟩ := h.valid q (mem_cons_of_mem _ hq)
      exact ⟨item', hitem', hbin, keyAt_eq hitem' ▸ hrest q hq⟩
  · have hgroups := h.groups
    cases next with
    | none => exact (nodup_cons.1 hgroups).2
    | some loc =>
      change (loc.pointer.slotGroupIndex :: pointers.map _).Nodup
      rw [(htaken.following loc rfl).1]
      exact hgroups
  · intro g j item' hitem' hbin hdue'
    -- An entry that was reached through the pointer itself is behind it, or has its pubkey.
    have hown : item'.pubkey = keyAt data p → ∀ {n}, n ≤ p.slotGroupIndex →
        ∃ q ∈ next.toList.map ItemLocation.pointer ++ pointers, n < q.slotGroupIndex ∧
          keyAt data q = item'.pubkey := by
      intro hsame n hn
      rcases hkey with hnot | ⟨q, hq, hlt, hq'⟩
      · exact absurd (hsame ▸ hdue') (hnot g)
      · exact ⟨q, mem_append_right _ hq, hn.trans_lt hlt, hq'.trans hsame.symm⟩
    rcases h.reached g j item' hitem' hbin (hdue g _ hdue') with ⟨q, hq, hg, hj⟩ | ⟨q, hq, hlt, hq'⟩
    · rcases mem_cons.1 hq with rfl | hq
      · subst hg
        rcases Nat.lt_or_ge last j with hafter | hbefore
        · obtain ⟨loc, hloc, hgroup, hle⟩ := (htaken.behind j item' hafter hitem').2 hbin
          refine .inl ⟨loc.pointer, mem_append_left _ ?_, hgroup, hle⟩
          exact mem_map_of_mem (Option.mem_toList.2 hloc)
        · refine .inr (hown ?_ le_rfl)
          have hlow := hsorted.pubkey_le hj hfirst hitem'
          have hhigh := hsorted.pubkey_le hbefore hitem' htaken.entry
          rw [htaken.same] at hhigh
          exact le_antisymm hhigh (keyAt_eq hfirst ▸ hlow)
      · exact .inl ⟨q, mem_append_right _ hq, hg, hj⟩
    · rcases mem_cons.1 hq with rfl | hq
      · exact .inr (hown hq'.symm hlt.le)
      · exact .inr ⟨q, mem_append_right _ hq, hlt, hq'⟩

def Descending (data : List (List CalculateHashIntermediate)) (workingSet : List SlotGroupPointer) :
    Prop :=
  (workingSet.map (keyAt data)).Pairwise fun a b => b < a

variable {workingSet : List SlotGroupPointer} {key : Pubkey}

lemma Reaches.pubkeyAt (h : Reaches data bin binner due pointers) (hp : p ∈ pointers) :
    pubkeyAt data p = some (keyAt data p) := by
  obtain ⟨item, hitem, -, -⟩ := h.valid p hp
  rw [pubkeyAt_eq, keyAt_eq hitem, hitem, Option.map_some]

lemma isBelowMin_eq (key : Pubkey) (h : ∀ p ∈ workingSet, pubkeyAt data p = some (keyAt data p)) :
    (isBelowMin data key workingSet = some true ∧
      ∃ p, workingSet.getLast? = some p ∧ key < keyAt data p) ∨
      isBelowMin data key workingSet = some false := by
  unfold isBelowMin
  cases hlast : workingSet.getLast? with
  | none => exact .inr rfl
  | some p =>
    simp only [h p (mem_of_getLast? hlast), Option.map_some]
    by_cases hlt : key < keyAt data p
    · exact .inl ⟨by rw [decide_eq_true hlt], p, rfl, hlt⟩
    · exact .inr (by rw [decide_eq_false hlt])

lemma searchWorkingSet_spec (key : Pubkey)
    (h : ∀ p ∈ workingSet, pubkeyAt data p = some (keyAt data p))
    (hdesc : Descending data workingSet) :
    (∃ index found, searchWorkingSet data key workingSet = some (.ok index) ∧
      workingSet[index]? = some found ∧ keyAt data found = key) ∨
    ∃ index, searchWorkingSet data key workingSet = some (.error index) ∧
      index ≤ workingSet.length ∧ (∀ p ∈ workingSet.take index, key < keyAt data p) ∧
      ∀ p ∈ workingSet.drop index, keyAt data p < key := by
  have hkeys : workingSet.mapM (pubkeyAt data) = some (workingSet.map (keyAt data)) :=
    ExceptLoops.mapM_eq_some_map h
  have hordered : BinarySearch.Ordered (fun prob => compare key prob)
      (workingSet.map (keyAt data)) := by
    refine hdesc.imp fun {a b} hlt => ?_
    simp only [compare_lt_iff_lt, compare_gt_iff_gt]
    exact ⟨fun h => h.trans hlt, fun h => hlt.trans h⟩
  unfold searchWorkingSet
  simp only [hkeys, Option.bind_eq_bind, Option.bind_some]
  rcases BinarySearch.search_spec hordered with ⟨index, k, hsearch, hk, heq⟩ | ⟨index, hsearch, hparts⟩
  · rw [getElem?_map, Option.map_eq_some_iff] at hk
    obtain ⟨found, hfound, rfl⟩ := hk
    exact .inl ⟨index, found, by rw [hsearch], hfound, (compare_eq_iff_eq.1 heq).symm⟩
  · refine .inr ⟨index, by rw [hsearch], ?_, ?_, ?_⟩
    · exact hparts.le.trans_eq (length_map _)
    · intro p hp
      obtain ⟨j, hj, rfl⟩ := mem_iff_getElem.1 hp
      rw [length_take] at hj
      rw [getElem_take]
      refine compare_lt_iff_lt.1 (hparts.before j _ (by omega) ?_)
      rw [getElem?_map, getElem?_eq_getElem (by omega), Option.map_some]
    · intro p hp
      obtain ⟨j, hj, rfl⟩ := mem_iff_getElem.1 hp
      rw [length_drop] at hj
      rw [getElem_drop]
      refine compare_gt_iff_gt.1 (hparts.after (index + j) _ (Nat.le_add_right _ _) ?_)
      rw [getElem?_map, getElem?_eq_getElem (by omega), Option.map_some]

lemma Descending.last_le (h : Descending data workingSet) (hlast : workingSet.getLast? = some last)
    (hp : p ∈ workingSet) :
    keyAt data last ≤ keyAt data p := by
  obtain ⟨front, rfl⟩ := getLast?_eq_some_iff.1 hlast
  unfold Descending at h
  rw [map_append, map_singleton] at h
  rcases mem_append.1 hp with hp | hp
  · exact ((pairwise_append.1 h).2.2 _ (mem_map_of_mem hp) _ (mem_singleton_self _)).le
  · rw [mem_singleton.1 hp]

lemma Descending.append_singleton (h : Descending data workingSet)
    (hlast : workingSet.getLast? = some last) (hlt : keyAt data p < keyAt data last) :
    Descending data (workingSet ++ [p]) := by
  unfold Descending
  rw [map_append, map_singleton]
  refine pairwise_append.2 ⟨h, pairwise_singleton _ _, ?_⟩
  intro a ha b hb
  obtain ⟨q, hq, rfl⟩ := mem_map.1 ha
  rw [mem_singleton.1 hb]
  exact hlt.trans_le (h.last_le hlast hq)

lemma insertIdx_eq_append (h : index ≤ workingSet.length) :
    workingSet.insertIdx index p = workingSet.take index ++ p :: workingSet.drop index := by
  induction index generalizing workingSet with
  | zero => rfl
  | succ index ih =>
    cases workingSet with
    | nil => cases h
    | cons q workingSet =>
      rw [insertIdx_succ_cons, ih (Nat.le_of_succ_le_succ h)]
      rfl

lemma Descending.insertIdx (h : Descending data workingSet)
    (hbefore : ∀ q ∈ workingSet.take index, keyAt data p < keyAt data q)
    (hafter : ∀ q ∈ workingSet.drop index, keyAt data q < keyAt data p) :
    Descending data (workingSet.take index ++ p :: workingSet.drop index) := by
  unfold Descending at h ⊢
  rw [← take_append_drop index workingSet, map_append] at h
  obtain ⟨hfront, hback, hcross⟩ := pairwise_append.1 h
  rw [map_append, map_cons]
  refine pairwise_append.2 ⟨hfront, pairwise_cons.2 ⟨?_, hback⟩, ?_⟩
  · exact forall_mem_map.2 hafter
  · intro a ha b hb
    obtain ⟨q, hq, rfl⟩ := mem_map.1 ha
    rcases mem_cons.1 hb with rfl | hb
    · exact hbefore q hq
    · exact hcross _ ha b hb

lemma Descending.set (h : Descending data workingSet) {found : SlotGroupPointer}
    (hfound : workingSet[index]? = some found) (hsame : keyAt data p = keyAt data found) :
    Descending data (workingSet.set index p) := by
  obtain ⟨hlt, rfl⟩ := List.getElem?_eq_some_iff.1 hfound
  unfold Descending at h ⊢
  rw [map_set, hsame, ← getElem_map (keyAt data) (h := by simpa using hlt), set_getElem_self]
  exact h

def pubkeysFrom (data : List (List CalculateHashIntermediate)) (key : Pubkey) : Nat :=
  ((data.flatten.map CalculateHashIntermediate.pubkey).toFinset.filter (key ≤ ·)).card

lemma mem_flatten_of_entryAt (h : entryAt data p = some item) : item ∈ data.flatten := by
  obtain ⟨group, hgroup, hitem⟩ := entryAt_eq_some.1 h
  exact mem_flatten.2 ⟨group, mem_of_getElem? hgroup, mem_of_getElem? hitem⟩

lemma pubkeysFrom_lt {key' : Pubkey} (h : entryAt data p = some item) (hlt : item.pubkey < key') :
    pubkeysFrom data key' < pubkeysFrom data item.pubkey := by
  refine Finset.card_lt_card ((Finset.ssubset_iff_of_subset ?_).2 ⟨item.pubkey, ?_, ?_⟩)
  · intro key hkey
    rw [Finset.mem_filter] at hkey ⊢
    exact ⟨hkey.1, hlt.le.trans hkey.2⟩
  · rw [Finset.mem_filter, mem_toFinset]
    exact ⟨mem_map_of_mem (mem_flatten_of_entryAt h), le_rfl⟩
  · rw [Finset.mem_filter]
    exact fun hmem => absurd hmem.2 (Nat.not_le.2 hlt)

lemma pubkeysFrom_le (key : Pubkey) : pubkeysFrom data key ≤ data.flatten.length := by
  calc pubkeysFrom data key
      ≤ (data.flatten.map CalculateHashIntermediate.pubkey).toFinset.card :=
        Finset.card_le_card (Finset.filter_subset _ _)
    _ ≤ (data.flatten.map CalculateHashIntermediate.pubkey).length := toFinset_card_le _
    _ = data.flatten.length := length_map _

lemma addNextItemLoop_spec (hsorted : SortedGroups data) (hmono : Monotone binner)
    (honward : Onward data bin binner due) {fuel : Nat}
    (h : Reaches data bin binner due (next.toList.map ItemLocation.pointer ++ workingSet))
    (hloc : ∀ loc, next = some loc → keyAt data loc.pointer = loc.key ∧ pubkeysFrom data loc.key < fuel)
    (hdesc : Descending data workingSet) :
    ∃ workingSet', addNextItemLoop data bin binner fuel next workingSet = some workingSet' ∧
      Reaches data bin binner due workingSet' ∧ Descending data workingSet' := by
  induction fuel generalizing next workingSet with
  | zero =>
    cases next with
    | none => exact ⟨workingSet, rfl, h, hdesc⟩
    | some loc => exact absurd (hloc loc rfl).2 (Nat.not_lt_zero _)
  | succ fuel ih =>
    cases next with
    | none => exact ⟨workingSet, rfl, h, hdesc⟩
    | some loc =>
      obtain ⟨key, pointer⟩ := loc
      obtain ⟨hkey, hfuel⟩ := hloc _ rfl
      change Reaches data bin binner due (pointer :: workingSet) at h
      simp only at hkey hfuel
      have hread : ∀ p ∈ workingSet, pubkeyAt data p = some (keyAt data p) :=
        fun p hp => h.pubkeyAt (mem_cons_of_mem _ hp)
      -- A pointer with a pubkey that a later group has gives way, and the loop goes on in its group.
      have hmove : ∀ {p : SlotGroupPointer} {rest : List SlotGroupPointer},
          Reaches data bin binner due (p :: rest) → Descending data rest → keyAt data p = key →
          (∃ q ∈ rest, p.slotGroupIndex < q.slotGroupIndex ∧ keyAt data q = key) →
          ∃ item next, getItem data bin binner ⟨key, p⟩ = some (item, next) ∧
            ∃ workingSet', addNextItemLoop data bin binner fuel next rest = some workingSet' ∧
              Reaches data bin binner due workingSet' ∧ Descending data workingSet' := by
        intro p rest hreach hrest hp hlater
        obtain ⟨first, hfirst, hbin, hdue⟩ := hreach.valid p (mem_cons_self ..)
        have hfirst_key : first.pubkey = key := (keyAt_eq hfirst).symm.trans hp
        obtain ⟨item, next, last, hget, htaken⟩ := getItem_spec hsorted hmono hfirst hbin
        rw [hfirst_key] at hget htaken hdue
        refine ⟨item, next, hget, ih ?_ ?_ hrest⟩
        · refine hreach.advance hsorted (hp.symm ▸ htaken) (fun _ _ hdue => hdue) ?_ ?_ ?_
          · intro q hq
            obtain ⟨item', hitem', -, hdue'⟩ := hreach.valid q (mem_cons_of_mem _ hq)
            exact keyAt_eq hitem' ▸ hdue'
          · intro loc hloc
            obtain ⟨hgroup, hlt, item', hitem', hsame, hbin'⟩ := htaken.following loc hloc
            have := honward loc.pointer item' key hitem' (hsame ▸ hbin') (hgroup ▸ hdue) (hsame ▸ hlt)
            rwa [hgroup, hsame] at this
          · exact .inr (hp.symm ▸ hlater)
        · intro loc hloc
          obtain ⟨-, hlt, item', hitem', hsame, -⟩ := htaken.following loc hloc
          refine ⟨(keyAt_eq hitem').trans hsame, ?_⟩
          have := pubkeysFrom_lt hfirst (hfirst_key.symm ▸ hlt)
          rw [hfirst_key] at this
          omega
      rw [addNextItemLoop]
      rcases isBelowMin_eq key hread with ⟨hbelow, last, hlast, hlt⟩ | hbelow
      · rw [hbelow]
        refine ⟨workingSet ++ [pointer], rfl, h.perm ?_, hdesc.append_singleton hlast (hkey.symm ▸ hlt)⟩
        exact (perm_append_singleton pointer workingSet).symm
      · rw [hbelow]
        rcases searchWorkingSet_spec key hread hdesc with
          ⟨index, found, hsearch, hfound, hsame⟩ | ⟨index, hsearch, hle, hbefore, hafter⟩
        · have hmem := mem_of_getElem? hfound
          obtain ⟨hlt, hget⟩ := List.getElem?_eq_some_iff.1 hfound
          have hne : pointer.slotGroupIndex ≠ found.slotGroupIndex := by
            intro heq
            exact (nodup_cons.1 h.groups).1 (heq ▸ mem_map_of_mem hmem)
          simp only [Option.bind_eq_bind, Option.bind_some, Bool.false_eq_true, if_false, hsearch, hfound]
          by_cases hlater : pointer.slotGroupIndex < found.slotGroupIndex
          · obtain ⟨item, next, hitem, hrest⟩ := hmove h hdesc hkey ⟨found, hmem, hlater, hsame⟩
            simp only [if_pos hlater, hitem, Option.bind_some]
            exact hrest
          · have hperm : (pointer :: workingSet).Perm (found :: workingSet.set index pointer) := by
              have hold := getElem_cons_eraseIdx_perm hlt
              have hnew := set_perm_cons_eraseIdx hlt pointer
              rw [hget] at hold
              exact (hold.symm.cons pointer).trans ((List.Perm.swap _ _ _).trans (hnew.symm.cons found))
            obtain ⟨item, next, hitem, hrest⟩ := hmove (h.perm hperm)
              (hdesc.set hfound (hkey.trans hsame.symm)) hsame
              ⟨pointer, mem_set hlt pointer, by omega, hkey⟩
            simp only [if_neg hlater, hitem, Option.bind_some]
            exact hrest
        · simp only [Option.bind_eq_bind, Option.bind_some, Bool.false_eq_true, if_false, hsearch]
          refine ⟨_, rfl, h.perm (perm_insertIdx pointer workingSet hle).symm, ?_⟩
          rw [insertIdx_eq_append hle]
          exact hdesc.insertIdx (fun q hq => hkey.symm ▸ hbefore q hq)
            (fun q hq => hkey.symm ▸ hafter q hq)

lemma addNextItem_spec (hsorted : SortedGroups data) (hmono : Monotone binner)
    (honward : Onward data bin binner due) (next : Option ItemLocation)
    (h : Reaches data bin binner due (next.toList.map ItemLocation.pointer ++ workingSet))
    (hloc : ∀ loc, next = some loc → keyAt data loc.pointer = loc.key)
    (hdesc : Descending data workingSet) :
    ∃ workingSet', addNextItem data bin binner next workingSet = some workingSet' ∧
      Reaches data bin binner due workingSet' ∧ Descending data workingSet' :=
  addNextItemLoop_spec hsorted hmono honward h
    (fun loc hsome => ⟨hloc loc hsome, Nat.lt_succ_of_le (pubkeysFrom_le loc.key)⟩) hdesc

variable {group : List CalculateHashIntermediate}

def BinsAscend (binner : Pubkey → Nat) (group : List CalculateHashIntermediate) : Prop :=
  group.Pairwise fun a b => binner a.pubkey ≤ binner b.pubkey

structure FirstInBin (bin : Nat) (binner : Pubkey → Nat) (group : List CalculateHashIntermediate)
    (result : Option Nat) : Prop where
  found : ∀ i, result = some i → ∃ item, group[i]? = some item ∧ binner item.pubkey = bin ∧
    ∀ (j : Nat) (item' : CalculateHashIntermediate), j < i → group[j]? = some item' →
      binner item'.pubkey < bin
  absent : result = none → ∀ (j : Nat) (item : CalculateHashIntermediate), group[j]? = some item →
    binner item.pubkey ≠ bin

section

variable (h : BinsAscend binner group)

include h

lemma BinsAscend.le (hij : i ≤ j) (ha : group[i]? = some a) (hb : group[j]? = some b) :
    binner a.pubkey ≤ binner b.pubkey :=
  BinarySearch.rel_of_le h (fun _ => le_rfl) hij ha hb

variable (bin) in
lemma searchFirstInBin_spec :
    ∃ i, searchFirstInBin bin binner group = some i ∧
      (∀ j item, j < i → group[j]? = some item → binner item.pubkey < bin) ∧
      ∀ j item, i ≤ j → group[j]? = some item → bin ≤ binner item.pubkey := by
  unfold searchFirstInBin
  by_cases hbin : bin = 0
  · rw [if_pos hbin]
    exact ⟨0, rfl, fun j _ hj => absurd hj (Nat.not_lt_zero j), fun _ _ _ _ => hbin ▸ Nat.zero_le _⟩
  · have hordered : BinarySearch.Ordered (fun item : CalculateHashIntermediate =>
        compare (1 + 2 * binner item.pubkey) (bin * 2)) group := by
      refine h.imp fun {a b} hle => ?_
      simp only [compare_lt_iff_lt, compare_gt_iff_gt]
      omega
    rw [if_neg hbin]
    rcases BinarySearch.search_spec hordered with ⟨i, item, hsearch, -, heq⟩ | ⟨i, hsearch, hparts⟩
    · -- An odd number is never found.
      have := compare_eq_iff_eq.1 heq
      omega
    · rw [hsearch]
      refine ⟨i, rfl, fun j item hj hitem => ?_, fun j item hj hitem => ?_⟩
      · have := compare_lt_iff_lt.1 (hparts.before j item hj hitem)
        omega
      · have := compare_gt_iff_gt.1 (hparts.after j item hj hitem)
        omega

variable (bin) in
lemma binarySearchForFirstPubkeyInBin_spec :
    ∃ result, binarySearchForFirstPubkeyInBin bin binner group = some result ∧
      FirstInBin bin binner group result := by
  obtain ⟨i, hsearch, hbefore, hafter⟩ := searchFirstInBin_spec bin h
  unfold binarySearchForFirstPubkeyInBin
  simp only [hsearch, Option.bind_eq_bind, Option.bind_some]
  refine ⟨_, rfl, ?_⟩
  cases hitem : group[i]? with
  | none =>
    refine ⟨nofun, fun _ j item hj => (hbefore j item ?_ hj).ne⟩
    have hlt := (List.getElem?_eq_some_iff.1 hj).1
    have hle := getElem?_eq_none_iff.1 hitem
    omega
  | some item =>
    rw [Option.bind_some]
    by_cases hbin : binner item.pubkey = bin
    · rw [if_pos hbin]
      refine ⟨fun k hsome => ?_, nofun⟩
      cases hsome
      exact ⟨item, hitem, hbin, hbefore⟩
    · rw [if_neg hbin]
      refine ⟨nofun, fun _ j item' hj => ?_⟩
      rcases Nat.lt_or_ge j i with hlt | hge
      · exact (hbefore j item' hlt hj).ne
      · have hle := h.le hge hitem hj
        have hfirst := hafter i item le_rfl hitem
        omega

lemma findFirstPubkeyInBin_spec (hbin : bin < bins) :
    ∃ result, findFirstPubkeyInBin bin binner bins group = some result ∧
      FirstInBin bin binner group result := by
  unfold findFirstPubkeyInBin
  by_cases hempty : group = []
  · subst hempty
    exact ⟨none, rfl, nofun, nofun⟩
  · have hpos := length_pos_iff.2 hempty
    have hlt : group.length * bin / bins < group.length := by
      rw [Nat.div_lt_iff_lt_mul (by omega)]
      exact Nat.mul_lt_mul_of_pos_left hbin hpos
    set i := group.length * bin / bins with hi
    have hdiv : checkedDiv (group.length * bin) bins = some i := if_neg (by omega)
    have hestimate := getElem?_eq_getElem hlt
    rw [isEmpty_eq_false_iff.2 hempty, if_neg Bool.false_ne_true]
    simp only [hdiv, hestimate, Option.bind_eq_bind, Option.bind_some]
    by_cases hle : bin ≤ binner group[i].pubkey
    · obtain ⟨result, hresult, hfirst⟩ := binarySearchForFirstPubkeyInBin_spec bin
        (show BinsAscend binner (group.take (i + 1)) from h.sublist (take_sublist _ _))
      have htake : ∀ {j item}, (group.take (i + 1))[j]? = some item ↔
          j ≤ i ∧ group[j]? = some item := by
        intro j item
        rw [getElem?_take]
        split_ifs with hj
        · exact ⟨fun h => ⟨by omega, h⟩, fun h => h.2⟩
        · exact ⟨nofun, fun h => absurd (by omega) hj⟩
      rw [if_pos hle]
      refine ⟨result, hresult, fun k hsome => ?_, fun hnone j item hj => ?_⟩
      · obtain ⟨item, hitem, hitem_bin, hbefore⟩ := hfirst.found k hsome
        obtain ⟨hk, hitem⟩ := htake.1 hitem
        exact ⟨item, hitem, hitem_bin, fun j item' hj hitem' =>
          hbefore j item' hj (htake.2 ⟨by omega, hitem'⟩)⟩
      · rcases Nat.lt_or_ge i j with hij | hij
        · have hne := hfirst.absent hnone i _ (htake.2 ⟨le_rfl, hestimate⟩)
          have hle' := h.le hij.le hestimate hj
          omega
        · exact hfirst.absent hnone j item (htake.2 ⟨hij, hj⟩)
    · obtain ⟨result, hresult, hfirst⟩ := binarySearchForFirstPubkeyInBin_spec bin
        (show BinsAscend binner (group.drop (i + 1)) from h.sublist (drop_sublist _ _))
      have hlow : ∀ {j item}, j ≤ i → group[j]? = some item → binner item.pubkey < bin := by
        intro j item hj hitem
        have := h.le hj hitem hestimate
        omega
      have hdrop : ∀ {j item}, i < j → group[j]? = some item →
          (group.drop (i + 1))[j - (i + 1)]? = some item := by
        intro j item hj hitem
        rw [getElem?_drop, Nat.add_sub_cancel' hj, hitem]
      rw [if_neg hle, hresult]
      refine ⟨_, rfl, fun k hsome => ?_, fun hnone j item hj => ?_⟩
      · obtain ⟨k', hk', rfl⟩ := Option.map_eq_some_iff.1 hsome
        obtain ⟨item, hitem, hitem_bin, hbefore⟩ := hfirst.found k' hk'
        rw [getElem?_drop] at hitem
        refine ⟨item, hitem, hitem_bin, fun j item' hj hitem' => ?_⟩
        rcases Nat.lt_or_ge i j with hij | hij
        · exact hbefore (j - (i + 1)) item' (by omega) (hdrop hij hitem')
        · exact hlow hij hitem'
      · rcases Nat.lt_or_ge i j with hij | hij
        · exact hfirst.absent (Option.map_eq_none_iff.1 hnone) _ item (hdrop hij hj)
        · exact (hlow hij hj).ne

end

/-- The entries of the bin. -/
def inBin (bin : Nat) (binner : Pubkey → Nat) (entries : List CalculateHashIntermediate) :
    List CalculateHashIntermediate :=
  entries.filter fun item => binner item.pubkey = bin

lemma takeWhile_eq_inBin (h : BinsAscend binner group) (hge : ∀ item ∈ group, bin ≤ binner item.pubkey) :
    (group.takeWhile fun item => binner item.pubkey = bin) = inBin bin binner group := by
  refine KeyedLists.takeWhile_eq_filter (Pairwise.imp_of_mem (fun {a b} ha _ hle hb => ?_) h)
  have := hge a ha
  simp only [decide_eq_true_eq] at hb ⊢
  omega

lemma length_inBin_of_first (h : BinsAscend binner group)
    (hfirst : FirstInBin bin binner group (some i)) :
    1 + ((group.drop (i + 1)).takeWhile fun item => binner item.pubkey = bin).length =
      (inBin bin binner group).length := by
  obtain ⟨item, hitem, hbin, hbefore⟩ := hfirst.found i rfl
  obtain ⟨hi, rfl⟩ := List.getElem?_eq_some_iff.1 hitem
  have hfront : inBin bin binner (group.take i) = [] := by
    refine filter_eq_nil_iff.2 fun item' hitem' => ?_
    obtain ⟨j, hj, rfl⟩ := mem_iff_getElem.1 hitem'
    rw [length_take] at hj
    have := hbefore j (group[j]) (by omega) (getElem?_eq_getElem (by omega))
    rw [getElem_take]
    simp only [decide_eq_true_eq]
    omega
  have hback : ∀ item' ∈ group.drop (i + 1), bin ≤ binner item'.pubkey := by
    intro item' hitem'
    obtain ⟨j, hj, rfl⟩ := mem_iff_getElem.1 hitem'
    rw [length_drop] at hj
    rw [getElem_drop, ← hbin]
    exact h.le (by omega : i ≤ i + 1 + j) hitem (getElem?_eq_getElem (by omega))
  have hsplit : inBin bin binner group = group[i] :: inBin bin binner (group.drop (i + 1)) := by
    conv_lhs => rw [← take_append_drop i group, drop_eq_getElem_cons hi]
    unfold inBin at hfront ⊢
    rw [filter_append, hfront, nil_append, filter_cons_of_pos (by simpa using hbin)]
  rw [hsplit, length_cons, takeWhile_eq_inBin (h.sublist (drop_sublist _ _)) hback, Nat.add_comm]

section

variable (hsorted : SortedGroups data)

include hsorted

section

variable (hmono : Monotone binner)

include hmono

lemma SortedGroups.binsAscend (hgroup : group ∈ data) : BinsAscend binner group :=
  (hsorted group hgroup).imp fun hle => hmono hle

lemma initializeGroups_spec
    (hbin : bin < bins) {suffix : List (List CalculateHashIntermediate)} {n : Nat}
    (hsuffix : data.drop n = suffix) :
    ∃ workingSet, (suffix.zipIdx n).foldrM
        (fun group state => initializeGroup data bin binner bins state group) ([], 0) =
        some (workingSet, (inBin bin binner suffix.flatten).length) ∧
      Reaches data bin binner (fun g _ => n ≤ g) workingSet ∧ Descending data workingSet := by
  induction suffix generalizing n with
  | nil =>
    refine ⟨[], rfl, ⟨fun p hp => (not_mem_nil hp).elim, nodup_nil, ?_⟩, List.Pairwise.nil⟩
    intro g j item hitem _ hn
    obtain ⟨group, hgroup, -⟩ := entryAt_eq_some.1 hitem
    have hlt := (List.getElem?_eq_some_iff.1 hgroup).1
    have hle := drop_eq_nil_iff.1 hsuffix
    simp only at hlt
    omega
  | cons group suffix ih =>
    have hgroup : data[n]? = some group := by
      rw [← Nat.add_zero n, ← getElem?_drop, hsuffix]
      rfl
    have hnext : data.drop (n + 1) = suffix := by
      rw [← drop_drop, hsuffix]
      rfl
    obtain ⟨workingSet, hfold, hreach, hdesc⟩ := ih hnext
    have hascend := hsorted.binsAscend hmono (mem_of_getElem? hgroup)
    obtain ⟨result, hresult, hfirst⟩ := findFirstPubkeyInBin_spec hascend hbin
    have hentry := entryAt_of_group hgroup
    have hvalid : ∀ p ∈ workingSet, ∃ item, entryAt data p = some item ∧ binner item.pubkey = bin ∧
        n ≤ p.slotGroupIndex := by
      intro p hp
      obtain ⟨item, hitem, hitem_bin, hle⟩ := hreach.valid p hp
      exact ⟨item, hitem, hitem_bin, by omega⟩
    rw [zipIdx_cons, foldrM_cons, hfold, flatten_cons]
    have hcount : (inBin bin binner (group ++ suffix.flatten)).length =
        (inBin bin binner group).length + (inBin bin binner suffix.flatten).length := by
      rw [inBin, filter_append, length_append]
      rfl
    rw [hcount]
    simp only [Option.bind_eq_bind, Option.bind_some, initializeGroup, hresult]
    cases result with
    | none =>
      have hnone : inBin bin binner group = [] := by
        refine filter_eq_nil_iff.2 fun item hitem => ?_
        obtain ⟨j, hj⟩ := mem_iff_getElem?.1 hitem
        simpa using hfirst.absent rfl j item hj
      refine ⟨workingSet, ?_, ⟨hvalid, hreach.groups, fun g j item hitem hitem_bin hn => ?_⟩, hdesc⟩
      · rw [hnone, length_nil, Nat.zero_add]
      · rcases hn.lt_or_eq with hlt | rfl
        · exact hreach.reached g j item hitem hitem_bin hlt
        · exact absurd hitem_bin (hfirst.absent rfl j item ((hentry j).symm.trans hitem))
    | some first =>
      obtain ⟨item, hitem, hitem_bin, hbefore⟩ := hfirst.found first rfl
      have hreach' : Reaches data bin binner (fun g _ => n ≤ g) (⟨n, first⟩ :: workingSet) := by
        refine ⟨forall_mem_cons.2 ⟨⟨item, (hentry first).trans hitem, hitem_bin, le_rfl⟩, hvalid⟩, ?_, ?_⟩
        · refine nodup_cons.2 ⟨fun hmem => ?_, hreach.groups⟩
          obtain ⟨p, hp, heq⟩ := mem_map.1 hmem
          obtain ⟨-, -, -, hle⟩ := hreach.valid p hp
          simp only at heq
          omega
        · intro g j item' hitem' hbin' hn
          rcases hn.lt_or_eq with hlt | rfl
          · rcases hreach.reached g j item' hitem' hbin' hlt with ⟨p, hp, hrest⟩ | ⟨p, hp, hrest⟩
            · exact .inl ⟨p, mem_cons_of_mem _ hp, hrest⟩
            · exact .inr ⟨p, mem_cons_of_mem _ hp, hrest⟩
          · refine .inl ⟨⟨n, first⟩, mem_cons_self .., rfl, ?_⟩
            by_contra hlt
            have := hbefore j item' (Nat.lt_of_not_le hlt) ((hentry j).symm.trans hitem')
            omega
      obtain ⟨workingSet', hadd, hreach'', hdesc'⟩ := addNextItem_spec hsorted hmono
        (fun _ _ _ _ _ hn _ => hn) (some ⟨item.pubkey, ⟨n, first⟩⟩) hreach'
        (fun loc hloc => by cases hloc; exact keyAt_eq ((hentry first).trans hitem)) hdesc
      refine ⟨workingSet', ?_, hreach'', hdesc'⟩
      simp only [hitem, hadd, Option.bind_some]
      rw [length_inBin_of_first hascend hfirst, Nat.add_comm]

lemma initializeDedupWorkingSet_spec (hbin : bin < bins) :
    ∃ workingSet, initializeDedupWorkingSet data bin binner bins =
        some (workingSet, (inBin bin binner data.flatten).length) ∧
      Reaches data bin binner (fun _ _ => True) workingSet ∧ Descending data workingSet := by
  obtain ⟨workingSet, hfold, hreach, hdesc⟩ := initializeGroups_spec hsorted hmono hbin
    (drop_zero (l := data))
  refine ⟨workingSet, ?_, ?_, hdesc⟩
  · unfold initializeDedupWorkingSet
    rw [foldlM_reverse]
    exact hfold
  · simpa using hreach

end

end

end Merge

end Nuah.Proofs
