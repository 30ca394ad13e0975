import Nuah.Proofs.GroupMerge
import Nuah.Proofs.SlicedMerkle

/-!
# The newest version of every account

One entry for each pubkey, in the order of the pubkeys, and that entry the newest one. The loop
over the working set takes these entries one after the other.
-/

namespace Nuah.Proofs

open List hiding count
open Nuah.AccountsHasher AccountHashesFile PubkeyBinCalculator24 Option

variable {group : List CalculateHashIntermediate} {overallSum : Nat}
  {calculator : PubkeyBinCalculator24}

variable {key : Pubkey} {capacity bins : Nat} {hashes : List Hash}

variable {item : CalculateHashIntermediate}

/-- The last entry with the pubkey in the last group that has one. -/
def newestVersion (data : List (List CalculateHashIntermediate)) (key : Pubkey) :
    Option CalculateHashIntermediate :=
  data.reverse.findSome? fun group => group.reverse.find? fun item => item.pubkey = key

/-- The newest version of every pubkey, in the order of the pubkeys. -/
def newestVersions (data : List (List CalculateHashIntermediate)) : List CalculateHashIntermediate :=
  ((data.flatten.map CalculateHashIntermediate.pubkey).dedup.insertionSort (· ≤ ·)).filterMap
    (newestVersion data)

/-- The hash that stands for an entry, if it has one. -/
def writtenHash (zeroLamportAccounts : ZeroLamportAccounts) (hashOfPubkey : Pubkey → Hash)
    (item : CalculateHashIntermediate) : Option Hash :=
  if item.lamports ≠ 0 then some item.hash
  else if zeroLamportAccounts = .included then some (hashOfPubkey item.pubkey)
  else none

section Newest

variable {data : List (List CalculateHashIntermediate)} {bin : Nat} {binner : Pubkey → Nat}

/-- No other entry with the pubkey is in a later group, or later in its group. -/
def IsNewest (data : List (List CalculateHashIntermediate)) (p : SlotGroupPointer)
    (item : CalculateHashIntermediate) : Prop :=
  entryAt data p = some item ∧ ∀ (g j : Nat) (item' : CalculateHashIntermediate),
    entryAt data ⟨g, j⟩ = some item' → item'.pubkey = item.pubkey →
      g < p.slotGroupIndex ∨ g = p.slotGroupIndex ∧ j ≤ p.offset

lemma mem_of_length_lt {α : Type} {l l' : List α} {a b : α} {i : Nat}
    (h : (l ++ a :: l')[i]? = some b) (hi : l.length < i) : b ∈ l' := by
  obtain ⟨n, rfl⟩ := Nat.exists_eq_add_of_lt hi
  rw [getElem?_append_right (by omega), show l.length + n + 1 - l.length = n + 1 by omega,
    getElem?_cons_succ] at h
  exact mem_of_getElem? h

lemma newestVersion_eq_some (h : newestVersion data key = some item) :
    item.pubkey = key ∧ ∃ p, IsNewest data p item := by
  -- the later groups have no such entry, and there is none behind it in its group
  obtain ⟨later, group, earlier, hdata, hfind, hlater⟩ := findSome?_eq_some_iff.1 h
  obtain ⟨hkey, after, before, hgroup, hafter⟩ := find?_eq_some_iff_append.1 hfind
  rw [reverse_eq_iff, reverse_append, reverse_cons, append_assoc, singleton_append] at hdata hgroup
  have hkey := of_decide_eq_true hkey
  refine ⟨hkey, ⟨earlier.reverse.length, before.reverse.length⟩, ?_, fun g j item' hitem' hkey' => ?_⟩
  · exact entryAt_eq_some.2 ⟨group, by simp [hdata], by simp [hgroup]⟩
  · obtain ⟨group', hgroup', hitem'⟩ := entryAt_eq_some.1 hitem'
    rw [hdata] at hgroup'
    rcases Nat.lt_trichotomy g earlier.reverse.length with hlt | rfl | hgt
    · exact .inl hlt
    · obtain rfl : group = group' := by simpa using hgroup'
      refine .inr ⟨rfl, ?_⟩
      by_contra hgt
      rw [hgroup] at hitem'
      have hmem := mem_of_length_lt hitem' (Nat.not_le.1 hgt)
      have hne := hafter item' (mem_reverse.1 hmem)
      simp [hkey', hkey] at hne
    · have hnone := hlater group' (mem_reverse.1 (mem_of_length_lt hgroup' hgt))
      have hne := find?_eq_none.1 hnone item' (mem_reverse.2 (mem_of_getElem? hitem'))
      simp [hkey', hkey] at hne

lemma newestVersion_isSome (h : key ∈ data.flatten.map CalculateHashIntermediate.pubkey) :
    ∃ item, newestVersion data key = some item := by
  obtain ⟨item, hitem, rfl⟩ := mem_map.1 h
  obtain ⟨group, hgroup, hitem⟩ := mem_flatten.1 hitem
  refine isSome_iff_exists.1 (findSome?_isSome_iff.2
    ⟨group, mem_reverse.2 hgroup, ?_⟩)
  rw [find?_isSome]
  exact ⟨item, mem_reverse.2 hitem, by simp⟩

lemma map_pubkey_newestVersions (data : List (List CalculateHashIntermediate)) :
    (newestVersions data).map CalculateHashIntermediate.pubkey =
      (data.flatten.map CalculateHashIntermediate.pubkey).dedup.insertionSort (· ≤ ·) := by
  unfold newestVersions
  have hkey : ∀ key ∈ (data.flatten.map CalculateHashIntermediate.pubkey).dedup.insertionSort (· ≤ ·),
      (newestVersion data key).map CalculateHashIntermediate.pubkey = some key := by
    intro key hmem
    rw [mem_insertionSort, mem_dedup] at hmem
    obtain ⟨item, hitem⟩ := newestVersion_isSome hmem
    rw [hitem, map_some, (newestVersion_eq_some hitem).1]
  rw [map_filterMap, filterMap_congr hkey, filterMap_some]

lemma mem_pubkey_newestVersions :
    key ∈ (newestVersions data).map CalculateHashIntermediate.pubkey ↔
      key ∈ data.flatten.map CalculateHashIntermediate.pubkey := by
  rw [map_pubkey_newestVersions, mem_insertionSort, mem_dedup]

lemma newestVersions_ascending (data : List (List CalculateHashIntermediate)) :
    (newestVersions data).Pairwise fun a b => a.pubkey < b.pubkey := by
  have hsorted := pairwise_insertionSort (· ≤ ·)
    (data.flatten.map CalculateHashIntermediate.pubkey).dedup
  have hnodup : ((data.flatten.map CalculateHashIntermediate.pubkey).dedup.insertionSort
      (· ≤ ·)).Nodup :=
    (perm_insertionSort _ _).nodup_iff.2 (nodup_dedup _)
  rw [← map_pubkey_newestVersions] at hsorted hnodup
  exact pairwise_map.1 ((hsorted.and hnodup).imp fun h => lt_of_le_of_ne h.1 h.2)

lemma mem_newestVersions (h : item ∈ newestVersions data) : ∃ p, IsNewest data p item := by
  obtain ⟨key, -, hitem⟩ := mem_filterMap.1 h
  exact (newestVersion_eq_some hitem).2

/-- The entries of the bin that are still to be taken: those from some pubkey on. -/
structure Remaining (data : List (List CalculateHashIntermediate)) (bin : Nat)
    (binner : Pubkey → Nat) (items : List CalculateHashIntermediate) : Prop where
  ascending : items.Pairwise fun a b => a.pubkey < b.pubkey
  newest : ∀ item ∈ items, binner item.pubkey = bin ∧ ∃ p, IsNewest data p item
  onward : ∀ p item' item, item ∈ items → entryAt data p = some item' → binner item'.pubkey = bin →
    item.pubkey < item'.pubkey → item'.pubkey ∈ items.map CalculateHashIntermediate.pubkey

def dueOf (items : List CalculateHashIntermediate) (_ : Nat) (key : Pubkey) : Prop :=
  key ∈ items.map CalculateHashIntermediate.pubkey

variable {items : List CalculateHashIntermediate} {workingSet : List SlotGroupPointer}

lemma Remaining.tail (h : Remaining data bin binner (item :: items)) :
    Remaining data bin binner items := by
  obtain ⟨hlt, hascending⟩ := pairwise_cons.1 h.ascending
  refine ⟨hascending, fun item' hitem' => h.newest item' (mem_cons_of_mem _ hitem'), ?_⟩
  intro p item'' item' hitem' hentry hbin hgt
  have hmem := h.onward p item'' item' (mem_cons_of_mem _ hitem') hentry hbin hgt
  rcases mem_cons.1 hmem with heq | hmem
  · exact absurd heq ((hlt item' hitem').trans hgt).ne'
  · exact hmem

lemma Remaining.onwardDue (h : Remaining data bin binner items) :
    Onward data bin binner (dueOf items) := by
  intro p item' key hentry hbin hdue hlt
  obtain ⟨item, hitem, rfl⟩ := mem_map.1 hdue
  exact h.onward p item' item hitem hentry hbin hlt

lemma Descending.concat {p : SlotGroupPointer} (h : Descending data (workingSet ++ [p])) :
    Descending data workingSet ∧ ∀ q ∈ workingSet, keyAt data p < keyAt data q := by
  unfold Descending at h ⊢
  rw [map_append, pairwise_append] at h
  exact ⟨h.1, fun q hq => h.2.2 _ (mem_map_of_mem hq) _ (mem_singleton_self _)⟩

lemma Descending.eq_of_keyAt_eq (h : Descending data workingSet) {p q : SlotGroupPointer}
    (hp : p ∈ workingSet) (hq : q ∈ workingSet) (heq : keyAt data p = keyAt data q) : p = q := by
  refine inj_on_of_nodup_map (f := keyAt data) ?_ hp hq heq
  exact h.imp fun hlt => hlt.ne'

lemma lowest_pointer (hsorted : SortedGroups data) (h : Remaining data bin binner (item :: items))
    (hreach : Reaches data bin binner (dueOf (item :: items)) workingSet)
    (hdesc : Descending data workingSet) :
    ∃ p j, workingSet.getLast? = some p ∧ keyAt data p = item.pubkey ∧
      IsNewest data ⟨p.slotGroupIndex, j⟩ item ∧ p.offset ≤ j := by
  obtain ⟨hbin, ⟨g, j⟩, hnewest⟩ := h.newest item (mem_cons_self ..)
  have hreached := hreach.reached g j item hnewest.1 hbin (mem_cons_self ..)
  have hne : workingSet ≠ [] := by
    rintro rfl
    rcases hreached with ⟨p, hp, -⟩ | ⟨p, hp, -⟩ <;> exact not_mem_nil hp
  have hlast := getLast?_eq_some_getLast hne
  set p := workingSet.getLast hne
  have hmem := mem_of_getLast? hlast
  have hge : item.pubkey ≤ keyAt data p := by
    obtain ⟨item', hitem', -, hdue⟩ := hreach.valid p hmem
    rw [keyAt_eq hitem']
    rcases mem_cons.1 hdue with heq | hdue
    · exact heq.ge
    · obtain ⟨item'', hitem'', heq⟩ := mem_map.1 hdue
      exact heq ▸ ((pairwise_cons.1 h.ascending).1 item'' hitem'').le
  refine ⟨p, j, hlast, ?_⟩
  rcases hreached with ⟨q, hq, hg, hj⟩ | ⟨q, hq, hlt, hkey⟩
  · subst hg
    obtain ⟨item', hitem', -, -⟩ := hreach.valid q hq
    have hle := hsorted.pubkey_le hj hitem' hnewest.1
    have hlow := hdesc.last_le hlast hq
    rw [keyAt_eq hitem'] at hlow
    have heq : keyAt data p = item.pubkey := le_antisymm (hlow.trans hle) hge
    obtain rfl : p = q := by
      refine hdesc.eq_of_keyAt_eq hmem hq (heq.trans ?_)
      rw [keyAt_eq hitem']
      exact le_antisymm (hge.trans hlow) hle
    exact ⟨heq, hnewest, hj⟩
  · -- A later group would have a newer version.
    obtain ⟨item', hitem', -, -⟩ := hreach.valid q hq
    have := hnewest.2 q.slotGroupIndex q.offset item' hitem' ((keyAt_eq hitem').symm.trans hkey)
    simp only at this
    omega

lemma dedupLoop_eq (hsorted : SortedGroups data) (hmono : Monotone binner)
    (zeroLamportAccounts : ZeroLamportAccounts) (hashOfPubkey : Pubkey → Hash)
    (h : Remaining data bin binner items)
    (hreach : Reaches data bin binner (dueOf items) workingSet) (hdesc : Descending data workingSet)
    {fuel : Nat} (hfuel : items.length ≤ fuel) (hashes : AccountHashesFile) (overallSum : Nat) :
    dedupLoop data bin binner zeroLamportAccounts hashOfPubkey fuel workingSet hashes overallSum =
      items.foldlM (fun state item =>
        addItem zeroLamportAccounts hashOfPubkey item state.1 state.2) (hashes, overallSum) := by
  induction items generalizing workingSet fuel hashes overallSum with
  | nil =>
    have hempty : workingSet = [] := by
      refine eq_nil_iff_forall_not_mem.2 fun p hp => ?_
      obtain ⟨item, -, -, hdue⟩ := hreach.valid p hp
      exact not_mem_nil hdue
    rw [hempty]
    cases fuel <;> rfl
  | cons item items ih =>
    obtain ⟨p, j, hlast, hkey, hnewest, hle⟩ := lowest_pointer hsorted h hreach hdesc
    obtain ⟨front, rfl⟩ := getLast?_eq_some_iff.1 hlast
    have hmem := mem_of_getLast? hlast
    obtain ⟨first, hfirst, hbin, -⟩ := hreach.valid p hmem
    have hfirst_key : first.pubkey = item.pubkey := (keyAt_eq hfirst).symm.trans hkey
    obtain ⟨item', next, last, hget, htaken⟩ := getItem_spec hsorted hmono hfirst hbin
    rw [hfirst_key] at hget htaken
    -- The last entry with the pubkey in the group is the newest one.
    obtain rfl : last = j := by
      rcases Nat.lt_trichotomy last j with hlt | heq | hgt
      · exact absurd (htaken.behind j item hlt hnewest.1).1 (Nat.lt_irrefl _)
      · exact heq
      · have := hnewest.2 p.slotGroupIndex last item' htaken.entry htaken.same
        simp only at this
        omega
    obtain rfl : item' = item := mem_unique htaken.entry hnewest.1
    have hread := hreach.pubkeyAt hmem
    rw [hkey] at hread
    obtain ⟨hfront, hlower⟩ := hdesc.concat
    rw [hkey] at hlower
    have hdue : ∀ g key, item'.pubkey < key → dueOf (item' :: items) g key → dueOf items g key := by
      intro g key hlt hdue
      rcases mem_cons.1 hdue with heq | hdue
      · exact absurd heq hlt.ne'
      · exact hdue
    have hnext : Reaches data bin binner (dueOf items)
        (next.toList.map ItemLocation.pointer ++ front) := by
      refine (hreach.perm (perm_append_singleton p front)).advance hsorted (hkey.symm ▸ htaken)
        (fun g key hdue => mem_cons_of_mem _ hdue) (fun q hq => ?_) (fun loc hloc => ?_)
        (.inl fun g hdue => ?_)
      · obtain ⟨item'', hitem'', -, hdue'⟩ := hreach.valid q (mem_append_left _ hq)
        rw [← keyAt_eq hitem''] at hdue'
        exact hdue _ _ (hlower q hq) hdue'
      · obtain ⟨hgroup, hlt, item'', hitem'', hsame, hbin'⟩ := htaken.following loc hloc
        refine hdue _ _ hlt ?_
        have := h.onwardDue loc.pointer item'' item'.pubkey hitem'' (hsame ▸ hbin')
          (mem_cons_self ..) (hsame ▸ hlt)
        rwa [hsame] at this
      · obtain ⟨item'', hitem'', heq⟩ := mem_map.1 hdue
        exact absurd (heq.trans hkey) ((pairwise_cons.1 h.ascending).1 item'' hitem'').ne'
    obtain ⟨workingSet', hadd, hreach', hdesc'⟩ := addNextItem_spec hsorted hmono
      h.tail.onwardDue _ hnext (fun loc hloc => by
        obtain ⟨-, -, item'', hitem'', hsame, -⟩ := htaken.following loc hloc
        exact (keyAt_eq hitem'').trans hsame) hfront
    obtain ⟨fuel, rfl⟩ : ∃ n, fuel = n + 1 := ⟨fuel - 1, by rw [length_cons] at hfuel; omega⟩
    rw [dedupLoop, hlast, foldlM_cons]
    simp only [hread, hget, bind_eq_bind, bind_some, dropLast_concat, hadd]
    refine congrArg _ (funext fun state => ?_)
    exact ih h.tail hreach' hdesc' (Nat.le_of_succ_le_succ hfuel) state.1 state.2

def fileOf (capacity : Nat) (hashes : List Hash) : AccountHashesFile :=
  ⟨if hashes = [] then none else some hashes, capacity⟩

@[simp]
lemma hashes_fileOf (capacity : Nat) (hashes : List Hash) :
    (fileOf capacity hashes).hashes = hashes := by
  unfold fileOf AccountHashesFile.hashes
  by_cases h : hashes = [] <;> simp [h]

lemma write_fileOf (hash : Hash) (h : (hashes.length + 1) * sizeOfHash ≤ capacity) :
    (fileOf capacity hashes).write hash = some (fileOf capacity (hashes ++ [hash])) := by
  have hopen : (fileOf capacity hashes).openWriter = some hashes := by
    unfold fileOf openWriter
    by_cases hnil : hashes = []
    · have hpos : 0 < capacity := lt_of_lt_of_le (Nat.mul_pos (Nat.succ_pos _) (by decide)) h
      simp [hnil, hpos]
    · simp [hnil]
  unfold write
  rw [Nat.succ_mul] at h
  simp only [hopen, bind_eq_bind, bind_some]
  change (if _ ≤ capacity then _ else none) = _
  rw [if_pos h]
  simp [fileOf]

variable (zeroLamportAccounts : ZeroLamportAccounts) (hashOfPubkey : Pubkey → Hash)

/-- The lamports of some entries. -/
def lamportsOf (items : List CalculateHashIntermediate) : Nat :=
  (items.map CalculateHashIntermediate.lamports).sum

lemma lamportsOf_flatMap {α : Type} (l : List α) (f : α → List CalculateHashIntermediate) :
    lamportsOf (l.flatMap f) = (l.map fun a => lamportsOf (f a)).sum := by
  rw [lamportsOf, List.map_flatMap, List.flatMap_def, List.sum_flatten, List.map_map]
  rfl

lemma addItem_eq (hcapacity : (hashes.length + 1) * sizeOfHash ≤ capacity)
    (hsum : overallSum ≤ u64Max) (item : CalculateHashIntermediate) :
    addItem zeroLamportAccounts hashOfPubkey item (fileOf capacity hashes) overallSum =
      if overallSum + item.lamports ≤ u64Max then
        some (fileOf capacity (hashes ++ (writtenHash zeroLamportAccounts hashOfPubkey item).toList),
          overallSum + item.lamports)
      else none := by
  unfold addItem writtenHash checkedCastForCapitalization
  by_cases hzero : item.lamports = 0
  · rw [if_neg (not_not.2 hzero), if_neg (not_not.2 hzero), hzero, Nat.add_zero, if_pos hsum]
    by_cases hincluded : zeroLamportAccounts = .included
    · simp only [if_pos hincluded, write_fileOf _ hcapacity, bind_eq_bind, bind_some]
      rfl
    · rw [if_neg hincluded, if_neg hincluded, toList_none, append_nil]
  · rw [if_pos hzero, if_pos hzero, Nat.add_comm item.lamports]
    by_cases hfits : overallSum + item.lamports ≤ u64Max
    · simp only [if_pos hfits, write_fileOf _ hcapacity, bind_eq_bind, bind_some]
      rfl
    · simp only [if_neg hfits]
      rfl

lemma addItems_eq (items : List CalculateHashIntermediate)
    (hcapacity : (hashes.length + items.length) * sizeOfHash ≤ capacity)
    (hsum : overallSum ≤ u64Max) :
    items.foldlM (fun state item => addItem zeroLamportAccounts hashOfPubkey item state.1 state.2)
        (fileOf capacity hashes, overallSum) =
      if overallSum + lamportsOf items ≤ u64Max then
        some (fileOf capacity (hashes ++ items.filterMap (writtenHash zeroLamportAccounts hashOfPubkey)),
          overallSum + lamportsOf items)
      else none := by
  induction items generalizing hashes overallSum with
  | nil =>
    rw [lamportsOf, map_nil, sum_nil, Nat.add_zero, if_pos hsum, filterMap_nil, append_nil]
    rfl
  | cons item items ih =>
    have hlamports : lamportsOf (item :: items) = item.lamports + lamportsOf items := by
      rw [lamportsOf, map_cons, sum_cons]
      rfl
    have hone : (hashes.length + 1) * sizeOfHash ≤ capacity := by
      refine le_trans (Nat.mul_le_mul_right _ ?_) hcapacity
      rw [length_cons]
      omega
    rw [foldlM_cons, addItem_eq zeroLamportAccounts hashOfPubkey hone hsum, hlamports,
      ← Nat.add_assoc]
    by_cases hfits : overallSum + item.lamports ≤ u64Max
    · rw [if_pos hfits]
      simp only [bind_eq_bind, bind_some]
      rw [ih _ hfits]
      · cases hwritten : writtenHash zeroLamportAccounts hashOfPubkey item with
        | none => rw [filterMap_cons_none hwritten, toList_none, append_nil]
        | some hash =>
          rw [filterMap_cons_some hwritten, toList_some, append_assoc, singleton_append]
      · refine le_trans (Nat.mul_le_mul_right _ ?_) hcapacity
        rw [length_append, length_cons]
        have := length_toList_le (o := writtenHash zeroLamportAccounts hashOfPubkey item)
        omega
    · rw [if_neg hfits, if_neg (by omega)]
      rfl

lemma pubkey_mem_inBin {p : SlotGroupPointer} (hitem : entryAt data p = some item)
    (hbin : binner item.pubkey = bin) :
    item.pubkey ∈ (inBin bin binner (newestVersions data)).map CalculateHashIntermediate.pubkey := by
  have hmem := mem_pubkey_newestVersions.2 (mem_map_of_mem (mem_flatten_of_entryAt hitem))
  obtain ⟨item', hitem', heq⟩ := mem_map.1 hmem
  refine heq ▸ mem_map_of_mem (mem_filter.2 ⟨hitem', ?_⟩)
  rw [heq]
  exact decide_eq_true hbin

lemma remaining_inBin (data : List (List CalculateHashIntermediate)) (bin : Nat)
    (binner : Pubkey → Nat) : Remaining data bin binner (inBin bin binner (newestVersions data)) := by
  refine ⟨?_, ?_, fun p item' _ _ hentry hbin _ => pubkey_mem_inBin hentry hbin⟩
  · exact (newestVersions_ascending data).sublist filter_sublist
  · intro item hitem
    obtain ⟨hmem, hbin⟩ := mem_filter.1 hitem
    exact ⟨of_decide_eq_true hbin, mem_newestVersions hmem⟩

lemma length_inBin_newestVersions_le (data : List (List CalculateHashIntermediate)) (bin : Nat)
    (binner : Pubkey → Nat) :
    (inBin bin binner (newestVersions data)).length ≤ (inBin bin binner data.flatten).length := by
  have hnodup : ((inBin bin binner (newestVersions data)).map
      CalculateHashIntermediate.pubkey).Nodup := by
    refine pairwise_map.2 (List.Pairwise.imp (fun hlt => ?_)
      ((newestVersions_ascending data).sublist filter_sublist))
    exact hlt.ne
  have hsubset : (inBin bin binner (newestVersions data)).map CalculateHashIntermediate.pubkey ⊆
      (inBin bin binner data.flatten).map CalculateHashIntermediate.pubkey := by
    intro key hkey
    obtain ⟨item, hitem, rfl⟩ := mem_map.1 hkey
    obtain ⟨hmem, hbin⟩ := mem_filter.1 hitem
    obtain ⟨p, hentry, -⟩ := mem_newestVersions hmem
    exact mem_map_of_mem (mem_filter.2 ⟨mem_flatten_of_entryAt hentry, hbin⟩)
  have hle := (hnodup.subperm hsubset).length_le
  rwa [length_map, length_map] at hle

lemma deDupBin_eq (hsorted : SortedGroups data) (hmono : Monotone binner) (hbin : bin < bins) :
    deDupBin data bin binner zeroLamportAccounts hashOfPubkey bins =
      if lamportsOf (inBin bin binner (newestVersions data)) ≤ u64Max then
        some (fileOf ((inBin bin binner data.flatten).length * sizeOfHash)
            ((inBin bin binner (newestVersions data)).filterMap
              (writtenHash zeroLamportAccounts hashOfPubkey)),
          lamportsOf (inBin bin binner (newestVersions data)))
      else none := by
  obtain ⟨workingSet, hinit, hreach, hdesc⟩ := initializeDedupWorkingSet_spec hsorted hmono hbin
  have hcount := length_inBin_newestVersions_le data bin binner
  have hreach' : Reaches data bin binner (dueOf (inBin bin binner (newestVersions data)))
      workingSet := by
    refine ⟨fun p hp => ?_, hreach.groups, fun g j item hitem hbin' _ =>
      hreach.reached g j item hitem hbin' trivial⟩
    obtain ⟨item, hitem, hbin', -⟩ := hreach.valid p hp
    exact ⟨item, hitem, hbin', pubkey_mem_inBin hitem hbin'⟩
  have hfuel : (inBin bin binner (newestVersions data)).length ≤ data.flatten.length :=
    hcount.trans (length_filter_le _ _)
  unfold deDupBin
  simp only [hinit, bind_eq_bind, bind_some]
  rw [dedupLoop_eq hsorted hmono zeroLamportAccounts hashOfPubkey (remaining_inBin ..) hreach' hdesc hfuel]
  have hitems := addItems_eq zeroLamportAccounts hashOfPubkey
    (inBin bin binner (newestVersions data))
    (show (([] : List Hash).length + (inBin bin binner (newestVersions data)).length) *
        sizeOfHash ≤
          (inBin bin binner data.flatten).length * sizeOfHash from
      Nat.mul_le_mul_right _ (by simpa using hcount)) (Nat.zero_le u64Max)
  rw [Nat.zero_add, nil_append] at hitems
  exact hitems

lemma flatMap_inBin {l : List CalculateHashIntermediate} (hascend : BinsAscend binner l)
    (hlt : ∀ item ∈ l, binner item.pubkey < bins) :
    ((range bins).flatMap fun bin => inBin bin binner l) = l := by
  have hsplit : ∀ (n : Nat) (l : List CalculateHashIntermediate), BinsAscend binner l →
      (l.filter fun item => binner item.pubkey < n) ++ inBin n binner l =
        l.filter fun item => binner item.pubkey < n + 1 := by
    intro n l hascend
    induction l with
    | nil => rfl
    | cons item l ih =>
      obtain ⟨hle, hascend⟩ := pairwise_cons.1 hascend
      unfold inBin at ih ⊢
      by_cases hitem : binner item.pubkey < n
      · have hbelow : binner item.pubkey < n + 1 := by omega
        simp only [filter_cons, decide_eq_true hitem, decide_eq_true hbelow,
          decide_eq_false hitem.ne, if_true, Bool.false_eq_true, if_false, cons_append,
          ih hascend]
      · have hnone : ((item :: l).filter fun item => binner item.pubkey < n) = [] := by
          refine filter_eq_nil_iff.2 (forall_mem_cons.2 ⟨by simpa using hitem, ?_⟩)
          intro item' hitem'
          have := hle item' hitem'
          simp only [decide_eq_true_eq]
          omega
        rw [hnone, nil_append]
        refine filter_congr fun item' hitem' => ?_
        have hge : n ≤ binner item'.pubkey := by
          rcases mem_cons.1 hitem' with rfl | hitem'
          · omega
          · have := hle item' hitem'
            omega
        rw [decide_eq_decide]
        omega
  have hall : ∀ n, ((range n).flatMap fun bin => inBin bin binner l) =
      l.filter fun item => binner item.pubkey < n := by
    intro n
    induction n with
    | zero => exact (filter_eq_nil_iff.2 fun _ _ => by simp).symm
    | succ n ih =>
      rw [range_succ, flatMap_append, ih, flatMap_singleton, hsplit n l hascend]
  rw [hall, filter_eq_self]
  intro item hitem
  exact decide_eq_true (hlt item hitem)

/-- The bins together yield one hash for each pubkey, in ascending order: that of the newest version,
or none. They panic if and only if the lamports of the newest versions in a bin do not fit. -/
theorem deDupBins_newest (hsorted : SortedGroups data) (hmono : Monotone binner) {bins : Nat}
    (hbins : ∀ item ∈ data.flatten, binner item.pubkey < bins) :
    ((∃ results, (List.range bins).mapM (fun bin =>
        deDupBin data bin binner zeroLamportAccounts hashOfPubkey bins) = some results) ↔
      ∀ bin < bins, lamportsOf (inBin bin binner (newestVersions data)) ≤ u64Max) ∧
    (∀ results, (List.range bins).mapM (fun bin =>
        deDupBin data bin binner zeroLamportAccounts hashOfPubkey bins) = some results →
      (results.flatMap fun result => result.1.hashes) =
        (newestVersions data).filterMap (writtenHash zeroLamportAccounts hashOfPubkey) ∧
      (results.map Prod.snd).sum = lamportsOf (newestVersions data) ∧
      ∀ result ∈ results,
        result.1.count * sizeOfHash ≤ result.1.capacity) ∧
    ((newestVersions data).Pairwise fun a b => a.pubkey < b.pubkey) ∧
    (∀ key, key ∈ (newestVersions data).map CalculateHashIntermediate.pubkey ↔
      key ∈ data.flatten.map CalculateHashIntermediate.pubkey) ∧
    ∀ item ∈ newestVersions data, newestVersion data item.pubkey = some item := by
  set run := (range bins).mapM fun bin =>
    deDupBin data bin binner zeroLamportAccounts hashOfPubkey bins with hrun
  set chosen := fun bin => inBin bin binner (newestVersions data)
  have hfits : (∀ bin < bins, lamportsOf (chosen bin) ≤ u64Max) →
      run = some ((range bins).map fun bin =>
        (fileOf ((inBin bin binner data.flatten).length * sizeOfHash)
          ((chosen bin).filterMap (writtenHash zeroLamportAccounts hashOfPubkey)),
        lamportsOf (chosen bin))) := by
    intro hfits
    refine ExceptLoops.mapM_eq_some_map fun bin hbin => ?_
    have hlt := mem_range.1 hbin
    rw [deDupBin_eq zeroLamportAccounts hashOfPubkey hsorted hmono hlt, if_pos (hfits bin hlt)]
  have hiff : (∃ results, run = some results) ↔
      ∀ bin < bins, lamportsOf (chosen bin) ≤ u64Max := by
    refine ⟨fun ⟨results, hresults⟩ bin hlt => ?_, fun h => ⟨_, hfits h⟩⟩
    by_contra hover
    have hnone := deDupBin_eq zeroLamportAccounts hashOfPubkey hsorted hmono hlt
    rw [if_neg hover] at hnone
    rw [hrun, ExceptLoops.mapM_eq_none (mem_range.2 hlt) hnone] at hresults
    cases hresults
  have hpartition : (range bins).flatMap chosen = newestVersions data := by
    refine flatMap_inBin ((newestVersions_ascending data).imp fun hlt => hmono hlt.le) ?_
    intro item hitem
    obtain ⟨p, hentry, -⟩ := mem_newestVersions hitem
    exact hbins item (mem_flatten_of_entryAt hentry)
  refine ⟨hiff, fun results hresults => ?_, newestVersions_ascending data,
    fun _ => mem_pubkey_newestVersions, fun item hitem => ?_⟩
  · rw [hfits (hiff.1 ⟨results, hresults⟩)] at hresults
    cases hresults
    refine ⟨?_, ?_, fun result hresult => ?_⟩
    · rw [flatMap_map]
      simp only [hashes_fileOf]
      rw [← filterMap_flatMap, hpartition]
    · rw [List.map_map, ← hpartition, lamportsOf_flatMap]
      rfl
    · obtain ⟨bin, -, rfl⟩ := mem_map.1 hresult
      rw [count, hashes_fileOf]
      refine Nat.mul_le_mul_right _ ((length_filterMap_le _ _).trans ?_)
      exact length_inBin_newestVersions_le data bin binner
  · obtain ⟨key, -, hnewest⟩ := mem_filterMap.1 hitem
    rw [(newestVersion_eq_some hnewest).1]
    exact hnewest

/-- Two groups with a pubkey in common, that occurs twice in the later one, and an account without
lamports. -/
def twoGroups : List (List CalculateHashIntermediate) :=
  [[⟨10, 5, 1⟩, ⟨11, 0, 4⟩], [⟨12, 7, 1⟩, ⟨13, 3, 1⟩, ⟨14, 9, 6⟩]]

theorem twoGroups_newest :
    ∃ results, (List.range 2).mapM (fun bin =>
        deDupBin twoGroups bin (· / 4) .excluded id 2) = some results ∧
      (results.flatMap fun result => result.1.hashes) = [13, 14] ∧ (results.map Prod.snd).sum = 12 := by
  have hsorted : SortedGroups twoGroups := by
    unfold SortedGroups
    decide
  have hmono : Monotone fun key : Pubkey => key / 4 := fun _ _ hle => Nat.div_le_div_right hle
  obtain ⟨hiff, hresults, -⟩ := deDupBins_newest .excluded id hsorted hmono
    (by decide : ∀ item ∈ twoGroups.flatten, item.pubkey / 4 < 2)
  obtain ⟨results, heq⟩ := hiff.2 (by decide +kernel)
  obtain ⟨hhashes, hsum, -⟩ := hresults results heq
  refine ⟨results, heq, hhashes.trans ?_, hsum.trans ?_⟩ <;> decide +kernel

/-- Two accounts of a bin whose lamports do not fit together. -/
theorem overflowingBin_panics :
    deDupBin [[⟨1, 2 ^ 63, 0⟩, ⟨2, 2 ^ 63, 1⟩]] 0 (fun _ => 0) .excluded id 1 = none := by
  decide +kernel

end Newest

lemma binFromPubkey_monotone (calculator : PubkeyBinCalculator24) :
    Monotone calculator.binFromPubkey :=
  fun _ _ hle => Nat.div_le_div_right (Nat.div_le_div_right hle)

lemma binFromPubkey_lt (h : new bins = some calculator) {pubkey : Pubkey}
    (hpubkey : pubkey < 2 ^ 256) : calculator.binFromPubkey pubkey < bins := by
  unfold new at h
  split_ifs at h with hbins
  obtain ⟨-, hle, hpow⟩ := hbins
  cases h
  have hlog : bins.log2 ≤ 24 := by
    rw [← hpow] at hle
    exact (Nat.pow_le_pow_iff_right (by decide)).1 hle
  refine Nat.div_lt_of_lt_mul (Nat.div_lt_of_lt_mul ?_)
  calc pubkey < 2 ^ 232 * 2 ^ 24 := hpubkey
    _ = 2 ^ 232 * (2 ^ (24 - bins.log2) * bins) := by rw [← Nat.pow_sub_mul_pow 2 hlog, hpow]

section Hash

variable {data : List (List CalculateHashIntermediate)}
  (zeroLamportAccounts : ZeroLamportAccounts) (hashOfPubkey : Pubkey → Hash)

lemma deDupAccounts_eq (hsorted : SortedGroups data)
    (hpubkeys : ∀ item ∈ data.flatten, item.pubkey < 2 ^ 256)
    (hfits : lamportsOf (newestVersions data) ≤ u64Max) (hnew : new bins = some calculator) :
    ∃ files, deDupAccounts zeroLamportAccounts hashOfPubkey data bins =
        some (files, lamportsOf (newestVersions data)) ∧
      (files.filterMap writer).flatten =
        (newestVersions data).filterMap (writtenHash zeroLamportAccounts hashOfPubkey) := by
  have hmono := binFromPubkey_monotone calculator
  have hlt : ∀ item ∈ newestVersions data, calculator.binFromPubkey item.pubkey < bins := by
    intro item hitem
    obtain ⟨p, hentry, -⟩ := mem_newestVersions hitem
    exact binFromPubkey_lt hnew (hpubkeys item (mem_flatten_of_entryAt hentry))
  have hpartition := flatMap_inBin
    ((newestVersions_ascending data).imp fun hlt => hmono hlt.le) hlt
  set chosen := fun bin => inBin bin calculator.binFromPubkey (newestVersions data)
  have hprefix : ∀ n ≤ bins, lamportsOf ((range n).flatMap chosen) ≤ u64Max := by
    intro n hn
    refine le_trans ?_ hfits
    rw [← hpartition, lamportsOf_flatMap, lamportsOf_flatMap]
    exact List.Sublist.sum_le_sum ((range_sublist.2 hn).map _) fun _ _ => Nat.zero_le _
  -- A bin after the other adds its file and its lamports.
  have hfold : ∀ n ≤ bins, ∃ files, (range n).foldlM
        (addBin zeroLamportAccounts hashOfPubkey data bins) ([], 0) =
        some (files, lamportsOf ((range n).flatMap chosen)) ∧
      (files.filterMap writer).flatten = ((range n).flatMap chosen).filterMap
        (writtenHash zeroLamportAccounts hashOfPubkey) := by
    intro n
    induction n with
    | zero => exact fun _ => ⟨[], rfl, rfl⟩
    | succ n ih =>
      intro hn
      obtain ⟨files, hfiles, hhashes⟩ := ih (by omega)
      have hsucc : (range (n + 1)).flatMap chosen =
          (range n).flatMap chosen ++ chosen n := by
        rw [range_succ, flatMap_append, flatMap_singleton]
      have hsum : lamportsOf ((range (n + 1)).flatMap chosen) =
          lamportsOf ((range n).flatMap chosen) + lamportsOf (chosen n) := by
        rw [hsucc, lamportsOf, map_append, sum_append]
        rfl
      have hsum_le := hprefix (n + 1) hn
      rw [hsum] at hsum_le
      have hbin := deDupBin_eq zeroLamportAccounts hashOfPubkey hsorted hmono hn
      rw [if_pos (show lamportsOf (chosen n) ≤ u64Max by omega)] at hbin
      have hwriter : ∀ capacity hashes,
          ([fileOf capacity hashes].filterMap writer).flatten = hashes := by
        intro capacity hashes
        unfold fileOf
        by_cases hnil : hashes = [] <;> simp [hnil]
      refine ⟨files ++ [fileOf ((inBin n calculator.binFromPubkey data.flatten).length *
        sizeOfHash) ((chosen n).filterMap
          (writtenHash zeroLamportAccounts hashOfPubkey))], ?_, ?_⟩
      · rw [hsum, range_succ, foldlM_append, hfiles]
        simp only [bind_eq_bind, bind_some, foldlM_cons, foldlM_nil, addBin,
          deDupAccountsInParallel, hnew, hbin]
        rw [checkedAddU64_eq_some.2 ⟨hsum_le, rfl⟩]
        rfl
      · rw [hsucc, filterMap_append, flatten_append, hhashes, hwriter, filterMap_append]
  obtain ⟨files, hfiles, hhashes⟩ := hfold bins le_rfl
  rw [hpartition] at hfiles hhashes
  exact ⟨files, hfiles, hhashes⟩

/-- The accounts hash is the root over the newest versions of all accounts in the order of their
pubkeys, and the lamports are theirs. -/
theorem restOfHashCalculation_eq (hashv : List Hash → Hash) (hsorted : SortedGroups data)
    (hpubkeys : ∀ item ∈ data.flatten, item.pubkey < 2 ^ 256)
    (hfits : lamportsOf (newestVersions data) ≤ u64Max) :
    ∃ root, restOfHashCalculation zeroLamportAccounts hashOfPubkey hashv data =
        some (root, lamportsOf (newestVersions data)) ∧
      computeMerkleRootRecurse hashv ((newestVersions data).filterMap
        (writtenHash zeroLamportAccounts hashOfPubkey)) merkleFanout = some root := by
  have hnew : new pubkeyBinsForCalculatingHashes = some ⟨8⟩ := rfl
  obtain ⟨files, hfiles, hhashes⟩ := deDupAccounts_eq zeroLamportAccounts hashOfPubkey hsorted
    hpubkeys hfits hnew
  unfold restOfHashCalculation computeMerkleRootRecurse
  refine (computeMerkleRootLoop_isSome hashv (by decide) id _).imp fun root hroot => ⟨?_, hroot⟩
  simp only [hfiles, bind_eq_bind, bind_some]
  rw [totalCount_fromRaw, computeMerkleRootFromSlices_eq hashv id (by decide) (by decide)
    (fetches_getSlice _), hhashes, hroot]
  rfl

theorem twoGroups_hash :
    ∃ root, restOfHashCalculation .excluded id List.sum twoGroups = some (root, 12) ∧
      computeMerkleRootRecurse List.sum [13, 14] merkleFanout = some root :=
  restOfHashCalculation_eq .excluded id List.sum (by unfold SortedGroups; decide) (by decide)
    (by decide +kernel)

end Hash

end Nuah.Proofs
