import Nuah.AccountsIndex

/-!
# Cleaning of rooted entries

What a reader sees of an account is the entry with the greatest slot among its ancestors and the
roots. The entries that are reclaimed are older than one that every reader sees.
-/

namespace Nuah.Proofs

open AccountsIndex List Option

variable {T : Type}

variable {found : Option Nat × Slot} {best : Option (Slot × T)} {entry : Slot × T}

def seenAsAncestor (ancestors : Option Ancestors) (slot : Slot) : Bool :=
  ancestors.any fun ancestors => !ancestors.isEmpty && ancestors.containsKey slot

def seenAsRoot (index : AccountsIndex T) (maxRoot : Option Slot) (slot : Slot) : Bool :=
  maxRoot.all (slot ≤ ·) && index.aliveRoots.contains slot

def visible (index : AccountsIndex T) (ancestors : Option Ancestors) (maxRoot : Option Slot)
    (slot : Slot) : Bool :=
  seenAsAncestor ancestors slot || seenAsRoot index maxRoot slot

structure IsLatest (accept : Slot → Bool) (slice : SlotList T) (entry : Slot × T) : Prop where
  mem : entry ∈ slice
  accepted : accept entry.1 = true
  le : ∀ other ∈ slice, accept other.1 = true → other.1 ≤ entry.1

def scanEntry (accept : Slot → Bool) (best : Option (Slot × T)) (entry : Slot × T) :
    Option (Slot × T) :=
  if best.all (·.1 < entry.1) && accept entry.1 then some entry else best

def Found (slice : SlotList T) : Option Nat × Slot → Option (Slot × T) → Prop
  | (none, _), none => True
  | (some i, currentMax), some entry => slice[i]? = some entry ∧ currentMax = entry.1
  | _, _ => False

section

variable (accept : Slot → Bool)

include accept

lemma scanStep_found {slice : SlotList T} {i : Nat}
    (h : Found slice found best) (hentry : slice[i]? = some entry) :
    Found slice (scanStep accept found (entry, i)) (scanEntry accept best entry) := by
  obtain ⟨rv, currentMax⟩ := found
  unfold scanStep scanEntry
  cases rv with
  | none =>
    cases best with
    | some _ => exact h.elim
    | none =>
      simp only [isNone_none, Bool.true_or, Bool.true_and, all_none]
      split_ifs
      · exact ⟨hentry, rfl⟩
      · trivial
  | some j =>
    cases best with
    | none => exact h.elim
    | some old =>
      obtain ⟨hj, rfl⟩ := h
      simp only [isNone_some, Bool.false_or, all_some]
      split_ifs
      · exact ⟨hentry, rfl⟩
      · exact ⟨hj, rfl⟩

lemma foldl_scanStep_found {slice : SlotList T} (front rest : SlotList T)
    (hsplit : slice = front ++ rest) (found : Option Nat × Slot) (best : Option (Slot × T))
    (h : Found slice found best) :
    Found slice ((rest.zipIdx front.length).foldl (scanStep accept) found)
      (rest.foldl (scanEntry accept) best) := by
  induction rest generalizing front found best with
  | nil => exact h
  | cons entry rest ih =>
    have hnext : slice = (front ++ [entry]) ++ rest := by
      rw [hsplit, append_assoc, singleton_append]
    have hentry : slice[front.length]? = some entry := by
      rw [hsplit, getElem?_append_right le_rfl, Nat.sub_self]
      rfl
    have hrest := ih (front ++ [entry]) hnext _ _ (scanStep_found accept h hentry)
    rw [length_append, length_singleton] at hrest
    rw [zipIdx_cons, foldl_cons, foldl_cons]
    exact hrest

lemma scanLatest_found (slice : SlotList T) (h : Found slice.reverse found best) :
    Found slice.reverse (scanLatest accept slice found)
      (slice.reverse.foldl (scanEntry accept) best) :=
  foldl_scanStep_found accept [] slice.reverse rfl found best h

lemma scanEntry_ge {old : Slot × T} (h : best = some old ∨ old = entry ∧ accept old.1 = true) :
    ∃ new, scanEntry accept best entry = some new ∧ old.1 ≤ new.1 := by
  unfold scanEntry
  split_ifs with htake
  · refine ⟨entry, rfl, ?_⟩
    rcases h with rfl | ⟨rfl, -⟩
    · exact (of_decide_eq_true (Bool.and_eq_true_iff.1 htake).1).le
    · exact le_rfl
  · rcases h with rfl | ⟨rfl, haccept⟩
    · exact ⟨old, rfl, le_rfl⟩
    · cases best with
      | none => exact absurd haccept htake
      | some best => exact ⟨best, rfl, by simpa [haccept] using htake⟩

lemma foldl_scanEntry_spec (slice : SlotList T) (best : Option (Slot × T)) :
    (∀ entry, slice.foldl (scanEntry accept) best = some entry →
      best = some entry ∨ entry ∈ slice ∧ accept entry.1 = true) ∧
    ∀ old, best = some old ∨ old ∈ slice ∧ accept old.1 = true →
      ∃ entry, slice.foldl (scanEntry accept) best = some entry ∧ old.1 ≤ entry.1 := by
  induction slice generalizing best with
  | nil =>
    refine ⟨fun _ h => .inl h, ?_⟩
    rintro old (h | ⟨h, -⟩)
    · exact ⟨old, h, le_rfl⟩
    · cases h
  | cons head rest ih =>
    obtain ⟨hfrom, hlate⟩ := ih (scanEntry accept best head)
    simp only [foldl_cons, mem_cons, or_and_right]
    constructor
    · intro entry hentry
      rcases hfrom entry hentry with hbest | hrest
      · unfold scanEntry at hbest
        split_ifs at hbest with htake
        · cases hbest
          exact .inr (.inl ⟨rfl, (Bool.and_eq_true_iff.1 htake).2⟩)
        · exact .inl hbest
      · exact .inr (.inr hrest)
    · intro old hold
      by_cases hrest : old ∈ rest ∧ accept old.1 = true
      · exact hlate old (.inr hrest)
      · obtain ⟨new, hnew, hle⟩ := scanEntry_ge accept (hold.imp_right (·.resolve_right hrest))
        obtain ⟨entry, hentry, hle'⟩ := hlate new (.inl hnew)
        exact ⟨entry, hentry, hle.trans hle'⟩

end

def latestEntry (index : AccountsIndex T) (ancestors : Option Ancestors) (slice : SlotList T)
    (maxRoot : Option Slot) : Option (Slot × T) := do
  let foundIndex ← index.latestSlot ancestors slice maxRoot
  slice[foundIndex]?

lemma getWith_eq (index : AccountsIndex T) (pubkey : Pubkey) (ancestors : Option Ancestors)
    (maxRoot : Option Slot) :
    index.getWith pubkey ancestors maxRoot =
      (index.accountMaps pubkey).bind (latestEntry index ancestors · maxRoot) := rfl

section

variable (index : AccountsIndex T) (ancestors : Option Ancestors) (slice : SlotList T)
  (maxRoot : Option Slot)

lemma scanLatest_ancestors : Found slice.reverse (match ancestors with
    | some ancestors =>
      if ancestors.isEmpty then (none, 0) else scanLatest ancestors.containsKey slice (none, 0)
    | none => (none, 0)) (slice.reverse.foldl (scanEntry (seenAsAncestor ancestors)) none) := by
  have hnone : ∀ l : SlotList T, l.foldl (scanEntry fun _ => false) none = none :=
    foldl_fixed' fun _ => rfl
  unfold seenAsAncestor
  cases ancestors with
  | none =>
    simp only [any_none]
    rw [hnone]
    trivial
  | some ancestors =>
    simp only [any_some]
    by_cases hempty : ancestors.isEmpty = true
    · simp only [hempty, if_true, Bool.not_true, Bool.false_and]
      rw [hnone]
      trivial
    · simp only [Bool.not_eq_true] at hempty
      simp only [hempty, Bool.false_eq_true, if_false, Bool.not_false, Bool.true_and]
      exact scanLatest_found _ slice trivial

lemma latestEntry_eq :
    latestEntry index ancestors slice maxRoot =
      slice.reverse.foldl (scanEntry (seenAsRoot index maxRoot))
        (slice.reverse.foldl (scanEntry (seenAsAncestor ancestors)) none) := by
  have hfound := scanLatest_found (seenAsRoot index maxRoot) slice
    (scanLatest_ancestors ancestors slice)
  unfold latestEntry latestSlot
  dsimp only
  change Option.bind (Option.map _ (scanLatest (seenAsRoot index maxRoot) slice _).1) _ = _
  generalize slice.reverse.foldl _ (slice.reverse.foldl _ none) = best at hfound ⊢
  generalize scanLatest _ slice _ = found at hfound ⊢
  obtain ⟨rv, currentMax⟩ := found
  cases rv with
  | none =>
    cases best with
    | none => rfl
    | some _ => exact hfound.elim
  | some i =>
    cases best with
    | none => exact hfound.elim
    | some entry =>
      obtain ⟨hi, -⟩ := hfound
      obtain ⟨hlt, -⟩ := List.getElem?_eq_some_iff.1 hi
      rw [List.length_reverse] at hlt
      rw [List.getElem?_reverse hlt] at hi
      exact hi

lemma latestEntry_ge {old : Slot × T} (hmem : old ∈ slice)
    (hvisible : visible index ancestors maxRoot old.1 = true) :
    ∃ entry, latestEntry index ancestors slice maxRoot = some entry ∧ old.1 ≤ entry.1 := by
  rw [latestEntry_eq]
  have hmem := mem_reverse.2 hmem
  have hlate := (foldl_scanEntry_spec (seenAsRoot index maxRoot) slice.reverse
    (slice.reverse.foldl (scanEntry (seenAsAncestor ancestors)) none)).2
  rcases Bool.or_eq_true_iff.1 hvisible with hancestor | hroot
  · obtain ⟨mid, hmid, hle⟩ := (foldl_scanEntry_spec (seenAsAncestor ancestors) slice.reverse
      none).2 old (.inr ⟨hmem, hancestor⟩)
    obtain ⟨entry, hentry, hle'⟩ := hlate mid (.inl hmid)
    exact ⟨entry, hentry, hle.trans hle'⟩
  · exact hlate old (.inr ⟨hmem, hroot⟩)

lemma latestEntry_isLatest (h : latestEntry index ancestors slice maxRoot = some entry) :
    IsLatest (visible index ancestors maxRoot) slice entry := by
  have hscans := h
  rw [latestEntry_eq] at hscans
  have hin : entry ∈ slice ∧ visible index ancestors maxRoot entry.1 = true := by
    rcases (foldl_scanEntry_spec _ _ _).1 entry hscans with hmid | ⟨hmem, hroot⟩
    · rcases (foldl_scanEntry_spec _ _ _).1 entry hmid with hnone | ⟨hmem, hancestor⟩
      · cases hnone
      · exact ⟨mem_reverse.1 hmem, Bool.or_eq_true_iff.2 (.inl hancestor)⟩
    · exact ⟨mem_reverse.1 hmem, Bool.or_eq_true_iff.2 (.inr hroot)⟩
  refine ⟨hin.1, hin.2, fun other hother hvisible => ?_⟩
  obtain ⟨entry', hentry', hle⟩ := latestEntry_ge index ancestors slice maxRoot hother hvisible
  rw [h] at hentry'
  cases hentry'
  exact hle

end

lemma latestEntry_eq_of_sublist {index : AccountsIndex T} {ancestors : Option Ancestors}
    {maxRoot : Option Slot} {slice kept : SlotList T} (hdistinct : (slice.map Prod.fst).Nodup)
    (hsub : ∀ entry ∈ kept, entry ∈ slice)
    (hkept : ∀ entry, IsLatest (visible index ancestors maxRoot) slice entry → entry ∈ kept) :
    latestEntry index ancestors kept maxRoot = latestEntry index ancestors slice maxRoot := by
  cases hread : latestEntry index ancestors slice maxRoot with
  | none =>
    cases hafter : latestEntry index ancestors kept maxRoot with
    | none => rfl
    | some entry =>
      have hlatest := latestEntry_isLatest _ _ _ _ hafter
      obtain ⟨_, hsome, -⟩ := latestEntry_ge _ _ _ _ (hsub entry hlatest.mem) hlatest.accepted
      rw [hread] at hsome
      cases hsome
  | some entry =>
    have hlatest := latestEntry_isLatest _ _ _ _ hread
    obtain ⟨after, hafter, hle⟩ := latestEntry_ge index ancestors kept maxRoot
      (hkept entry hlatest) hlatest.accepted
    have hlatest' := latestEntry_isLatest _ _ _ _ hafter
    have hle' := hlatest.le after (hsub after hlatest'.mem) hlatest'.accepted
    rw [hafter, inj_on_of_nodup_map hdistinct (hsub after hlatest'.mem) hlatest.mem
      (Nat.le_antisymm hle' hle)]

def cleanLimit (index : AccountsIndex T) (maxCleanRoot : Option Slot) : Slot :=
  maxCleanRoot.getD index.aliveRoots.maxInclusive

lemma le_maxInclusive {roots : RollingBitField} {slot : Slot} (h : roots.contains slot = true) :
    slot ≤ roots.maxInclusive := by
  by_contra hlt
  have hout : ¬slot < roots.maxExclusive := fun hin => hlt (Nat.le_sub_one_of_lt hin)
  rw [RollingBitField.contains, if_neg hout] at h
  cases h

def allowedRoot (roots : RollingBitField) (limit : Option Slot) (slot : Slot) : Prop :=
  limit.all (slot ≤ ·) = true ∧ roots.contains slot = true

section

variable (roots : RollingBitField)

include roots

variable (limit : Option Slot)

lemma newerRoot_spec (maxRoot slot : Slot) :
    maxRoot ≤ newerRoot roots limit maxRoot slot ∧
    (allowedRoot roots limit slot → slot ≤ newerRoot roots limit maxRoot slot) ∧
    (newerRoot roots limit maxRoot slot = maxRoot ∨
      newerRoot roots limit maxRoot slot = slot ∧ allowedRoot roots limit slot) := by
  have hallowed : limit.any (· < slot) = !limit.all (slot ≤ ·) := by
    cases limit with
    | none => rfl
    | some limit => exact decide_eq_decide.2 Nat.not_le.symm |>.trans (decide_not)
  unfold newerRoot allowedRoot
  rw [hallowed]
  by_cases hlimit : limit.all (slot ≤ ·) = true
  · rw [hlimit]
    simp only [Bool.not_true, Bool.false_eq_true, if_false, true_and]
    split_ifs with htake
    · exact ⟨htake.1.le, fun _ => le_rfl, .inr ⟨rfl, htake.2⟩⟩
    · refine ⟨le_rfl, fun hroot => ?_, .inl rfl⟩
      by_contra hlt
      exact htake ⟨Nat.not_le.1 hlt, hroot⟩
  · rw [if_pos (by simpa using hlimit)]
    exact ⟨le_rfl, fun h => absurd h.1 hlimit, .inl rfl⟩

lemma foldl_newerRoot_spec (slice : SlotList T) (start : Slot) :
    let newest := slice.foldl (fun maxRoot (slot, _) => newerRoot roots limit maxRoot slot) start
    start ≤ newest ∧ (∀ entry ∈ slice, allowedRoot roots limit entry.1 → entry.1 ≤ newest) ∧
    (newest = start ∨ ∃ entry ∈ slice, entry.1 = newest ∧ allowedRoot roots limit entry.1) := by
  induction slice generalizing start with
  | nil => exact ⟨le_rfl, fun _ h => absurd h not_mem_nil, .inl rfl⟩
  | cons head rest ih =>
    obtain ⟨hgrow, htake, hfrom⟩ := newerRoot_spec roots limit start head.1
    obtain ⟨hle, hmax, hlast⟩ := ih (newerRoot roots limit start head.1)
    dsimp only
    rw [foldl_cons]
    refine ⟨hgrow.trans hle, forall_mem_cons.2 ⟨fun hallowed => (htake hallowed).trans hle, hmax⟩, ?_⟩
    rcases hlast with hsame | hlast
    · rcases hfrom with hold | ⟨hnew, hallowed⟩
      · exact .inl (hsame.trans hold)
      · exact .inr ⟨head, mem_cons_self, (hsame.trans hnew).symm, hallowed⟩
    · exact .inr (exists_mem_cons_of_exists hlast)

lemma getNewestRootInSlotList_spec (slice : SlotList T) (limit : Option Slot) :
    (∀ entry ∈ slice, allowedRoot roots limit entry.1 →
      entry.1 ≤ getNewestRootInSlotList roots slice limit) ∧
    (getNewestRootInSlotList roots slice limit = 0 ∨ ∃ entry ∈ slice,
      entry.1 = getNewestRootInSlotList roots slice limit ∧ allowedRoot roots limit entry.1) :=
  (foldl_newerRoot_spec roots limit slice 0).2

end

/-- A reader that the cleaning may not disturb: its ancestors up to the limit are roots, and it sees
all roots up to the limit. -/
structure Undisturbed (index : AccountsIndex T) (maxCleanRoot : Option Slot)
    (ancestors : Option Ancestors) (maxRoot : Option Slot) : Prop where
  ancestors : ∀ a, ancestors = some a → ∀ slot, a.containsKey slot = true →
    slot ≤ cleanLimit index maxCleanRoot → index.aliveRoots.contains slot = true
  maxRoot : ∀ root, maxRoot = some root → cleanLimit index maxCleanRoot ≤ root

section

variable [IsCached T] {index : AccountsIndex T} {slotList : SlotList T}
  {maxCleanRoot : Option Slot} {ancestors : Option Ancestors} {maxRoot : Option Slot}

def purgeable (index : AccountsIndex T) (slotList : SlotList T) (maxCleanRoot : Option Slot)
    (entry : Slot × T) : Bool :=
  canPurgeOlderEntries (cleanLimit index maxCleanRoot)
    (getNewestRootInSlotList index.aliveRoots slotList maxCleanRoot) entry.1 && !isCached entry.2

lemma purgeOlderRootEntries_eq (reclaims : SlotList T) :
    index.purgeOlderRootEntries slotList reclaims maxCleanRoot =
      (slotList.filter (!purgeable index slotList maxCleanRoot ·),
        reclaims ++ slotList.filter (purgeable index slotList maxCleanRoot)) := rfl

lemma cleanRootedEntries_eq {pubkey : Pubkey} (hlist : index.accountMaps pubkey = some slotList)
    (reclaims : SlotList T) :
    index.cleanRootedEntries pubkey reclaims maxCleanRoot =
      let kept := slotList.filter (!purgeable index slotList maxCleanRoot ·)
      let left := if kept.isEmpty then none else some kept
      (kept.isEmpty, { index with accountMaps := Function.update index.accountMaps pubkey left },
        reclaims ++ slotList.filter (purgeable index slotList maxCleanRoot)) := by
  unfold cleanRootedEntries
  rw [hlist]
  rfl

section

variable (h : Undisturbed index maxCleanRoot ancestors maxRoot)

include h

lemma not_purgeable_of_isLatest
    (hlatest : IsLatest (visible index ancestors maxRoot) slotList entry) :
    purgeable index slotList maxCleanRoot entry = false := by
  by_contra hpurge
  rw [Bool.not_eq_false, purgeable, canPurgeOlderEntries, Bool.and_eq_true_iff,
    Bool.and_eq_true_iff] at hpurge
  obtain ⟨⟨hlimit, hnewest⟩, -⟩ := hpurge
  have hlimit := of_decide_eq_true hlimit
  have hroot : index.aliveRoots.contains entry.1 = true := by
    rcases Bool.or_eq_true_iff.1 hlatest.accepted with hancestor | hroot
    · unfold seenAsAncestor at hancestor
      cases ancestors with
      | none => cases hancestor
      | some a => exact h.ancestors a rfl entry.1 (Bool.and_eq_true_iff.1 hancestor).2 hlimit.le
    · exact (Bool.and_eq_true_iff.1 hroot).2
  -- a root within the limit of the cleaning is within the one of the reader
  have hallowed : ∀ slot, index.aliveRoots.contains slot = true →
      (maxCleanRoot.all (slot ≤ ·) = true ↔ slot ≤ cleanLimit index maxCleanRoot) := by
    intro slot hslot
    cases maxCleanRoot with
    | none => exact iff_of_true rfl (le_maxInclusive hslot)
    | some limit => exact decide_eq_true_iff
  obtain ⟨hmax, hlast⟩ :=
    getNewestRootInSlotList_spec index.aliveRoots slotList maxCleanRoot
  have hle := hmax entry hlatest.mem ⟨(hallowed entry.1 hroot).2 hlimit.le, hroot⟩
  have hlt : entry.1 < getNewestRootInSlotList index.aliveRoots slotList maxCleanRoot :=
    lt_of_le_of_ne hle (bne_iff_ne.1 hnewest)
  rcases hlast with hzero | ⟨newest, hnewestMem, heq, hallowedNewest⟩
  · exact absurd (hzero ▸ hlt) (Nat.not_lt_zero _)
  · have hseen : visible index ancestors maxRoot newest.1 = true := by
      refine Bool.or_eq_true_iff.2 (.inr (Bool.and_eq_true_iff.2 ⟨?_, hallowedNewest.2⟩))
      cases maxRoot with
      | none => rfl
      | some root =>
        exact decide_eq_true (((hallowed newest.1 hallowedNewest.2).1 hallowedNewest.1).trans
          (h.maxRoot root rfl))
    have hback := hlatest.le newest hnewestMem hseen
    exact absurd (heq ▸ hback) (Nat.not_le.2 hlt)

lemma latestEntry_purge (hdistinct : (slotList.map Prod.fst).Nodup) (reclaims : SlotList T) :
    latestEntry index ancestors
      (index.purgeOlderRootEntries slotList reclaims maxCleanRoot).1 maxRoot =
    latestEntry index ancestors slotList maxRoot := by
  rw [purgeOlderRootEntries_eq]
  refine latestEntry_eq_of_sublist hdistinct (fun entry hentry => mem_of_mem_filter hentry) ?_
  intro entry hlatest
  refine mem_filter.2 ⟨hlatest.mem, ?_⟩
  rw [not_purgeable_of_isLatest h hlatest]
  rfl

end

end

/-- Cleaning does not change what is read of any account, by a reader whose ancestors up to the limit
are roots. Cached entries are kept, and what is not kept is reclaimed. -/
theorem cleanRootedEntries_read_unchanged [IsCached T] (index : AccountsIndex T) (pubkey : Pubkey)
    (reclaims : SlotList T) (maxCleanRoot : Option Slot)
    (hdistinct : ∀ slotList, index.accountMaps pubkey = some slotList →
      (slotList.map Prod.fst).Nodup) :
    let cleaned := index.cleanRootedEntries pubkey reclaims maxCleanRoot
    (∀ ancestors maxRoot, Undisturbed index maxCleanRoot ancestors maxRoot → ∀ key,
      cleaned.2.1.getWith key ancestors maxRoot = index.getWith key ancestors maxRoot) ∧
    ∀ slotList, index.accountMaps pubkey = some slotList →
      ∃ kept purged,
        index.purgeOlderRootEntries slotList reclaims maxCleanRoot = (kept, reclaims ++ purged) ∧
        cleaned.2.1.accountMaps pubkey = (if kept.isEmpty then none else some kept) ∧
        cleaned.2.2 = reclaims ++ purged ∧
        (purged ++ kept).Perm slotList ∧
        (∀ entry ∈ slotList, isCached entry.2 = true → entry ∈ kept) ∧
        ∀ ancestors maxRoot, Undisturbed index maxCleanRoot ancestors maxRoot →
          latestEntry index ancestors kept maxRoot =
            latestEntry index ancestors slotList maxRoot := by
  dsimp only
  cases hlist : index.accountMaps pubkey with
  | none =>
    unfold cleanRootedEntries
    rw [hlist]
    exact ⟨fun _ _ _ _ => rfl, fun _ h => absurd h (by simp)⟩
  | some slotList =>
    have hread : ∀ ancestors maxRoot, Undisturbed index maxCleanRoot ancestors maxRoot →
        latestEntry index ancestors
          (index.purgeOlderRootEntries slotList reclaims maxCleanRoot).1 maxRoot =
        latestEntry index ancestors slotList maxRoot :=
      fun _ _ h => latestEntry_purge h (hdistinct slotList hlist) reclaims
    rw [purgeOlderRootEntries_eq] at hread
    rw [cleanRootedEntries_eq hlist]
    constructor
    · intro ancestors maxRoot h key
      rw [getWith_eq, getWith_eq]
      change (Function.update index.accountMaps pubkey _ key).bind
        (latestEntry index ancestors · maxRoot) = _
      by_cases hkey : key = pubkey
      · rw [hkey, Function.update_self, hlist, bind_some, ← hread ancestors maxRoot h]
        cases slotList.filter (!purgeable index slotList maxCleanRoot ·) with
        | nil =>
          rw [latestEntry_eq]
          rfl
        | cons _ _ => rfl
      · rw [Function.update_of_ne hkey]
    · rintro _ ⟨⟩
      refine ⟨_, _, purgeOlderRootEntries_eq reclaims, Function.update_self .., rfl,
        filter_append_perm _ _, ?_, hread⟩
      intro entry hentry hcached
      refine mem_filter.2 ⟨hentry, ?_⟩
      unfold purgeable
      rw [hcached, Bool.not_true, Bool.and_false]
      rfl

instance : IsCached Bool := ⟨id⟩

/-- Three roots and a fork: an index with one account, written in slots three to eight. -/
def forkedIndex : AccountsIndex Bool where
  aliveRoots := ⟨8, 3, 7, [false, false, false, true, false, true, true, false], 3, []⟩
  accountMaps := Function.update (fun _ => none) 1
    (some [(3, false), (4, false), (5, false), (6, false), (7, false), (8, true)])

def forkAncestors : Ancestors :=
  ⟨8, 5, 8, [false, false, false, false, false, true, true, true], 3, []⟩

/-- A cleaning up to slot six leaves the root in it, and what a reader on the fork sees. -/
theorem forkedIndex_read_unchanged :
    let cleaned := forkedIndex.cleanRootedEntries 1 [] (some 6)
    cleaned.2.2 = [(3, false), (4, false), (5, false)] ∧
    cleaned.2.1.getWith 1 none none = some (6, false) ∧
    cleaned.2.1.getWith 1 (some forkAncestors) (some 6) = some (7, false) ∧
    cleaned.2.1.getWith 1 (some forkAncestors) (some 6) =
      forkedIndex.getWith 1 (some forkAncestors) (some 6) := by
  have hclean := (cleanRootedEntries_read_unchanged forkedIndex 1 [] (some 6) (by
    rintro _ ⟨⟩
    decide)).1
  have hreader : Undisturbed forkedIndex (some 6) (some forkAncestors) (some 6) := by
    constructor
    · rintro _ ⟨⟩ slot hslot hle
      revert hslot
      revert slot
      decide +kernel
    · rintro _ ⟨⟩
      exact le_rfl
  exact ⟨by decide +kernel, by decide +kernel, by decide +kernel,
    hclean (some forkAncestors) (some 6) hreader 1⟩

end Nuah.Proofs
