import Nuah.Tower
import Nuah.Proofs.NextVoteSlot

/-!
# Lockout safety of the local tower

In a run where every vote passed `is_locked_out`, a slot that was rooted is an ancestor of
every later vote, and a vote on another fork comes only after the lockout ended.
-/

namespace Nuah.Proofs
open List

variable {s v : Slot} {t t' : Tower} {kept : List LandedVote} {i k c : Nat}

variable {tree : BlockTree} {j : Nat}

structure BlockTree where
  ancestors : Slot → Finset Slot
  lt_of_mem : ∀ {a b}, a ∈ ancestors b → a < b
  trans : ∀ {a b c}, a ∈ ancestors b → b ∈ ancestors c → a ∈ ancestors c
  linear : ∀ {a b c}, a ∈ ancestors c → b ∈ ancestors c → a = b ∨ a ∈ ancestors b ∨ b ∈ ancestors a

/-- A vote on `s` that was checked before it was recorded. Slots are `u64`. -/
structure TowerStep (tree : BlockTree) (t : Tower) (s : Slot) (t' : Tower) : Prop where
  slot_le : s ≤ u64Max
  not_locked_out : t.isLockedOut s (tree.ancestors s) = .ok false
  recorded : ∃ hash now newRoot, t.recordBankVoteAndUpdateLockouts s hash now = .ok (t', newRoot)

def heldSlots (t : Tower) : List Slot := t.voteState.votes.map LandedVote.slot

def AncestorChain (tree : BlockTree) (t : Tower) : Prop :=
  (heldSlots t).Pairwise fun a b => a ∈ tree.ancestors b

/-- The first `n` votes of a run, on `slots k` from tower `k` to tower `k + 1`. -/
structure TowerRun (tree : BlockTree) (n : Nat) (towers : Nat → Tower) (slots : Nat → Slot) : Prop where
  start_tower : TowerInvariant (towers 0).voteState
  start_chain : AncestorChain tree (towers 0)
  step : ∀ k, k < n → TowerStep tree (towers k) (slots k) (towers (k + 1))

lemma processVoteUnchecked_single {vs : VoteState} (hash : Hash)
    (hnew : ∀ last, vs.lastVotedSlot = some last → last < s) :
    processVoteUnchecked vs (Vote.new [s] hash) =
      .ok (vs.processNextVoteSlot s vs.currentEpoch 0 true true) := by
  have hskip : vs.lastVotedSlot.any (fun last => decide (s ≤ last)) = false := by
    rw [Option.any_eq_false]
    intro last hlast
    simpa using hnew last hlast
  have hloop : checkSlotsLoop vs [s] [(s, hash)] 2 0 1 = .ok (1, 0) := by
    simp [checkSlotsLoop, hskip, indexOrPanic, Bind.bind, Except.bind]
  have hcheck : checkSlotsAreValid vs [s] hash [(s, hash)] = .ok () := by
    simp [checkSlotsAreValid, hloop, indexOrPanic, Bind.bind, Except.bind]
  simp [processVoteUnchecked, processVoteUnfiltered, Vote.new, hcheck, Bind.bind, Except.bind]

lemma updateLastVoteFromVoteState_voteState (t : Tower) (hash : Hash) (now : UnixTimestamp) :
    (t.updateLastVoteFromVoteState hash now).voteState = t.voteState := by
  unfold Tower.updateLastVoteFromVoteState Tower.maybeTimestamp
  dsimp only
  split
  · split <;> rfl
  · rfl

lemma isRecent_newest (h : t.isRecent s = true) :
    ∀ last, t.voteState.lastVotedSlot = some last → last < s := by
  intro last hlast
  simpa [Tower.isRecent, hlast] using h

lemma isRecent_above_root (htower : TowerInvariant t.voteState) (h : t.isRecent s = true) :
    ∀ r, t.voteState.rootSlot = some r → r < s := by
  intro r hr
  cases hlast : t.voteState.lastVotedSlot with
  | none => simpa [Tower.isRecent, hlast, hr] using h
  | some last =>
    have hlt : last < s := isRecent_newest h last hlast
    obtain ⟨v, hv, rfl⟩ := lastVotedSlot_eq_some.1 hlast
    by_cases hr0 : r = 0
    · rw [hr0]
      exact Nat.zero_lt_of_lt hlt
    · exact (htower.root_below r hr hr0 v (mem_of_getLast? hv)).trans hlt

/-- What a checked vote does: everything that stays below the new vote is an ancestor of it. -/
structure Voted (tree : BlockTree) (t : Tower) (s : Slot) (t' : Tower) (kept : List LandedVote) :
    Prop where
  pushed : Pushed t.voteState s t'.voteState kept
  newest : ∀ last, t.voteState.lastVotedSlot = some last → last < s
  above_root : ∀ r, t.voteState.rootSlot = some r → r < s
  kept_ancestor : ∀ v ∈ kept, v.slot ∈ tree.ancestors s
  root_ancestor : ∀ r, t'.voteState.rootSlot = some r → r ∈ tree.ancestors s
  tower : TowerInvariant t'.voteState

lemma TowerStep.voted (htower : TowerInvariant t.voteState) (h : TowerStep tree t s t') :
    ∃ kept, Voted tree t s t' kept := by
  have hlocked := h.not_locked_out
  unfold Tower.isLockedOut at hlocked
  split at hlocked
  · simp at hlocked
  rename_i hrecent
  rw [Bool.not_eq_true, Bool.not_eq_false'] at hrecent
  have hnewest := isRecent_newest hrecent
  have habove := isRecent_above_root htower hrecent
  -- the simulated vote and the recorded one leave the same vote state
  have hsim : processSlotVoteUnchecked t.voteState s =
      t.voteState.processNextVoteSlot s t.voteState.currentEpoch 0 true true := by
    rw [processSlotVoteUnchecked, processVoteUnchecked_single 0 hnewest]
  have hrecord : t'.voteState =
      t.voteState.processNextVoteSlot s t.voteState.currentEpoch 0 true true := by
    obtain ⟨hash, now, newRoot, hrec⟩ := h.recorded
    obtain ⟨oldRoot, -, hrec⟩ := bind_eq_ok.1 hrec
    rw [processVoteUnchecked_single hash hnewest] at hrec
    obtain ⟨newRoot', -, hrec⟩ := bind_eq_ok.1 hrec
    obtain ⟨rfl, -⟩ := Prod.mk.inj (Except.ok.inj hrec)
    rw [updateLastVoteFromVoteState_voteState]
  obtain ⟨kept, hpushed⟩ :=
    processNextVoteSlot_new htower s t.voteState.currentEpoch 0 true true hnewest
  obtain ⟨htower', hroot⟩ := processNextVoteSlot_invariant htower s t.voteState.currentEpoch 0 true
    true fun _ r hr _ => habove r hr
  rw [hsim, ← hrecord] at hlocked
  rw [← hrecord] at hpushed htower'
  dsimp only at hlocked
  split at hlocked
  · simp at hlocked
  rename_i hvotes
  have hbelow : ∀ v ∈ kept, v.slot < s := fun v hv =>
    slot_lt_of_lastVotedSlot_lt htower hnewest (hpushed.kept_isInfix.subset hv)
  refine ⟨kept, hpushed, hnewest, habove, ?_, ?_, htower'⟩
  · intro v hv
    have hheld : v.slot ∈ t'.voteState.votes.map LandedVote.slot := by
      rw [hpushed.slots_eq]
      exact mem_append_left _ (mem_map_of_mem hv)
    obtain ⟨w, hw, heq⟩ := mem_map.1 hheld
    by_contra hnot
    refine hvotes (any_eq_true.2 ⟨w, hw, ?_⟩)
    simp [heq, hnot, (hbelow v hv).ne']
  · intro r hr
    have hne : s ≠ r := by
      obtain ⟨-, hkeep⟩ | ⟨oldest, hp, hnewRoot⟩ := hpushed.root
      · exact (habove r (hkeep ▸ hr)).ne'
      · obtain rfl : oldest.slot = r := Option.mem_unique hnewRoot hr
        exact (slot_lt_of_lastVotedSlot_lt htower hnewest (hp.subset (by simp))).ne'
    rw [hr] at hlocked
    dsimp only at hlocked
    rw [if_pos hne] at hlocked
    obtain ⟨_, hassert, -⟩ := bind_eq_ok.1 hlocked
    rwa [assertOrPanic_eq_ok, decide_eq_true_eq] at hassert

lemma AncestorChain.mem_ancestors (h : AncestorChain tree t) {a b : Slot} (ha : a ∈ heldSlots t)
    (hb : b ∈ heldSlots t) (hlt : a < b) : a ∈ tree.ancestors b := by
  obtain ⟨i, hi, rfl⟩ := getElem_of_mem ha
  obtain ⟨j, hj, rfl⟩ := getElem_of_mem hb
  rcases lt_trichotomy i j with hij | rfl | hji
  · exact pairwise_iff_getElem.1 h i j hi hj hij
  · exact absurd hlt (lt_irrefl _)
  · exact absurd hlt (tree.lt_of_mem (pairwise_iff_getElem.1 h j i hj hi hji)).not_gt

lemma Voted.chain (h : Voted tree t s t' kept) (hchain : AncestorChain tree t) :
    AncestorChain tree t' := by
  unfold AncestorChain heldSlots
  rw [h.pushed.slots_eq, pairwise_append]
  refine ⟨hchain.sublist (h.pushed.kept_isInfix.sublist.map _), pairwise_singleton _ _, ?_⟩
  intro a ha b hb
  obtain ⟨v, hv, rfl⟩ := mem_map.1 ha
  obtain rfl := mem_singleton.1 hb
  exact h.kept_ancestor v hv

lemma Voted.held_after (h : Voted tree t s t' kept) (hv : v ∈ heldSlots t') :
    v = s ∨ (v ∈ heldSlots t ∧ v ∈ tree.ancestors s) := by
  unfold heldSlots at hv
  rw [h.pushed.slots_eq] at hv
  rcases mem_append.1 hv with hv | hv
  · obtain ⟨w, hw, rfl⟩ := mem_map.1 hv
    exact .inr ⟨mem_map_of_mem (h.pushed.kept_isInfix.subset hw), h.kept_ancestor w hw⟩
  · exact .inl (mem_singleton.1 hv)

section Run
variable {n : Nat} {towers : Nat → Tower} {slots : Nat → Slot}

section

variable (hrun : TowerRun tree n towers slots)

include hrun

lemma TowerRun.sound (k : Nat) (hk : k ≤ n) :
    TowerInvariant (towers k).voteState ∧ AncestorChain tree (towers k) := by
  induction k with
  | zero => exact ⟨hrun.start_tower, hrun.start_chain⟩
  | succ k ih =>
    obtain ⟨htower, hchain⟩ := ih (by omega)
    obtain ⟨kept, hvoted⟩ := (hrun.step k (by omega)).voted htower
    exact ⟨hvoted.tower, hvoted.chain hchain⟩

lemma TowerRun.voted (k : Nat) (hk : k < n) :
    ∃ kept, Voted tree (towers k) (slots k) (towers (k + 1)) kept :=
  (hrun.step k hk).voted (hrun.sound k hk.le).1

lemma TowerRun.slots_lt (hij : i < j) (hj : j < n) : slots i < slots j := by
  induction j with
  | zero => omega
  | succ j ih =>
    obtain ⟨kept, hvoted⟩ := hrun.voted j (by omega)
    obtain ⟨kept', hvoted'⟩ := hrun.voted (j + 1) hj
    have hlast : slots j < slots (j + 1) := hvoted'.newest _ hvoted.pushed.lastVotedSlot
    rcases Nat.lt_succ_iff_lt_or_eq.1 hij with hlt | rfl
    · exact (ih hlt (by omega)).trans hlast
    · exact hlast

lemma TowerRun.held_since (hik : i < k) (hk : k ≤ n) (hheld : slots i ∈ heldSlots (towers k)) :
    ∀ j, i < j → j < k → slots i ∈ tree.ancestors (slots j) := by
  induction k with
  | zero => omega
  | succ k ih =>
    intro j hij hjk
    obtain ⟨kept, hvoted⟩ := hrun.voted k (by omega)
    have hne : slots i ≠ slots k := (hrun.slots_lt (by omega) (by omega)).ne
    obtain ⟨hbefore, hanc⟩ := (hvoted.held_after hheld).resolve_left hne
    rcases Nat.lt_succ_iff_lt_or_eq.1 hjk with hlt | rfl
    · exact ih (by omega) (by omega) hbefore j hij hlt
    · exact hanc

end

/-- The vote on `v` leaves the tower with confirmation count `c`. -/
def Leaves (t t' : Tower) (v : Slot) (c : Nat) : Prop :=
  (∃ vote ∈ t.voteState.votes, vote.slot = v ∧ vote.confirmationCount = c) ∧ v ∉ heldSlots t'

/-- Root and votes all descend from `v`, or are `v` itself as the root. -/
structure AllFrom (tree : BlockTree) (v : Slot) (t : Tower) : Prop where
  root : ∃ r, t.voteState.rootSlot = some r ∧ (r = v ∨ v ∈ tree.ancestors r)
  votes : ∀ a ∈ heldSlots t, v ∈ tree.ancestors a

section

variable (h : Voted tree t s t' kept)

include h

lemma Voted.allFrom (hall : AllFrom tree v t) : v ∈ tree.ancestors s ∧ AllFrom tree v t' := by
  have hroot : ∃ r, t'.voteState.rootSlot = some r ∧ (r = v ∨ v ∈ tree.ancestors r) := by
    obtain ⟨-, hkeep⟩ | ⟨oldest, hp, hnewRoot⟩ := h.pushed.root
    · rw [hkeep]
      exact hall.root
    · exact ⟨oldest.slot, hnewRoot, .inr (hall.votes _ (mem_map_of_mem (hp.subset (by simp))))⟩
  have hs : v ∈ tree.ancestors s := by
    obtain ⟨r, hr, rfl | hanc⟩ := hroot
    · exact h.root_ancestor r hr
    · exact tree.trans hanc (h.root_ancestor r hr)
  refine ⟨hs, hroot, ?_⟩
  intro a ha
  rcases h.held_after ha with rfl | ⟨hheld, -⟩
  · exact hs
  · exact hall.votes a hheld

lemma Voted.allFrom_of_root (htower : TowerInvariant t.voteState)
    (hchain : AncestorChain tree t) (hheld : v ∈ heldSlots t)
    (hroot : t'.voteState.rootSlot = some v) (hleft : v ∉ heldSlots t') :
    AllFrom tree v t' := by
  refine ⟨⟨v, hroot, .inl rfl⟩, ?_⟩
  intro a ha
  rcases h.held_after ha with rfl | ⟨hbefore, -⟩
  · exact h.root_ancestor v hroot
  · have hva : v ≠ a := by
      rintro rfl
      exact hleft ha
    have hle : v ≤ a := by
      obtain ⟨-, hkeep⟩ | ⟨oldest, ⟨rest, hvotes⟩, hnewRoot⟩ := h.pushed.root
      · -- only the root 0 can also be held as a vote
        obtain ⟨w, hw, rfl⟩ := mem_map.1 hheld
        have hw0 : w.slot = 0 := by
          by_contra hne
          exact lt_irrefl _ (htower.root_below _ (hkeep ▸ hroot) hne w hw)
        rw [hw0]
        exact Nat.zero_le a
      · obtain rfl : oldest.slot = v := Option.mem_unique hnewRoot hroot
        obtain ⟨w, hw, rfl⟩ := mem_map.1 hbefore
        have hsorted := htower.slots_increasing
        rw [← hvotes, cons_append] at hsorted hw
        rcases mem_cons.1 hw with rfl | hw
        · exact le_refl _
        · exact ((pairwise_cons.1 hsorted).1 w hw).le
    exact hchain.mem_ancestors hheld hbefore (lt_of_le_of_ne hle hva)

lemma Voted.expired (htower : TowerInvariant t.voteState)
    (hs : s ≤ u64Max) (hleaves : Leaves t t' v c) (hroot : t'.voteState.rootSlot ≠ some v) :
    v + 2 ^ c < s := by
  obtain ⟨⟨vote, hvote, rfl, rfl⟩, hleft⟩ := hleaves
  have hexpired : vote.lockout.lastLockedOutSlot < s := by
    rcases h.pushed.dropped vote hvote with hkept | hexpired | hrooted
    · refine absurd ?_ hleft
      rw [heldSlots, h.pushed.slots_eq]
      exact mem_append_left _ (mem_map_of_mem hkept)
    · exact hexpired
    · exact absurd hrooted hroot
  rw [Lockout.lastLockedOutSlot, lockout_eq_pow _ (htower.counts_in_range vote hvote).2,
    saturatingAddU64] at hexpired
  exact (min_lt_iff.1 hexpired).resolve_right (Nat.not_lt.2 hs)

end

section

variable (hrun : TowerRun tree n towers slots)

include hrun

lemma TowerRun.allFrom_later
    (hall : AllFrom tree v (towers k)) (j : Nat) (hkj : k ≤ j) (hj : j ≤ n) :
    AllFrom tree v (towers j) := by
  induction j, hkj using Nat.le_induction with
  | base => exact hall
  | succ j hkj ih =>
    obtain ⟨kept, hvoted⟩ := hrun.voted j (by omega)
    exact (hvoted.allFrom (ih (by omega))).2

lemma TowerRun.rooted (hik : i < k) (hk : k < n)
    (hleaves : Leaves (towers k) (towers (k + 1)) (slots i) c)
    (hroot : (towers (k + 1)).voteState.rootSlot = some (slots i)) :
    ∀ j, i < j → j < n → slots i ∈ tree.ancestors (slots j) := by
  intro j hij hj
  obtain ⟨⟨vote, hvote, hslot, -⟩, hleft⟩ := hleaves
  have hheld : slots i ∈ heldSlots (towers k) := hslot ▸ mem_map_of_mem hvote
  obtain ⟨kept, hvoted⟩ := hrun.voted k hk
  obtain ⟨htower, hchain⟩ := hrun.sound k hk.le
  rcases lt_trichotomy j k with hjk | rfl | hkj
  · exact hrun.held_since hik hk.le hheld j hij hjk
  · exact hvoted.root_ancestor _ hroot
  · have hall := hvoted.allFrom_of_root htower hchain hheld hroot hleft
    obtain ⟨kept', hvoted'⟩ := hrun.voted j hj
    exact (hvoted'.allFrom (hrun.allFrom_later hall j hkj hj.le)).1

lemma TowerRun.expired (hik : i < k) (hk : k < n)
    (hleaves : Leaves (towers k) (towers (k + 1)) (slots i) c)
    (hroot : (towers (k + 1)).voteState.rootSlot ≠ some (slots i)) :
    ∀ j, i < j → j < n → slots i ∉ tree.ancestors (slots j) → slots i + 2 ^ c < slots j := by
  intro j hij hj hother
  obtain ⟨kept, hvoted⟩ := hrun.voted k hk
  have hexpired := hvoted.expired (hrun.sound k hk.le).1 (hrun.step k hk).slot_le hleaves hroot
  rcases lt_trichotomy j k with hjk | rfl | hkj
  · obtain ⟨⟨vote, hvote, hslot, -⟩, -⟩ := hleaves
    have hheld : slots i ∈ heldSlots (towers k) := hslot ▸ mem_map_of_mem hvote
    exact absurd (hrun.held_since hik hk.le hheld j hij hjk) hother
  · exact hexpired
  · exact hexpired.trans (hrun.slots_lt hkj hj)

lemma TowerRun.leaves_before (hij : i < j) (hj : j < n)
    (hother : slots i ∉ tree.ancestors (slots j)) :
    ∃ k c, i < k ∧ k ≤ j ∧ Leaves (towers k) (towers (k + 1)) (slots i) c := by
  have hgone : slots i ∉ heldSlots (towers (j + 1)) := by
    intro hheld
    exact hother (hrun.held_since (by omega) hj hheld j hij (by omega))
  have hstart : slots i ∈ heldSlots (towers (i + 1)) := by
    obtain ⟨kept, hvoted⟩ := hrun.voted i (by omega)
    rw [heldSlots, hvoted.pushed.slots_eq]
    simp
  clear hother hj
  induction j with
  | zero => omega
  | succ j ih =>
    by_cases hheld : slots i ∈ heldSlots (towers (j + 1))
    · obtain ⟨vote, hvote, hslot⟩ := mem_map.1 hheld
      exact ⟨j + 1, vote.confirmationCount, hij, le_refl _, ⟨vote, hvote, hslot, rfl⟩, hgone⟩
    · have hne : i ≠ j := by
        rintro rfl
        exact hheld hstart
      obtain ⟨k, c, hik, hkj, hleaves⟩ := ih (by omega) hheld
      exact ⟨k, c, hik, by omega, hleaves⟩

end

/-- Lockout safety: votes that leave the tower to the root are ancestors of all later votes,
those that leave otherwise are only voted against after their lockout. -/
theorem tower_lockout_safety (hrun : TowerRun tree n towers slots) :
    (∀ k, k ≤ n → AncestorChain tree (towers k)) ∧
    (∀ i k c, i < k → k < n → Leaves (towers k) (towers (k + 1)) (slots i) c →
      ((towers (k + 1)).voteState.rootSlot = some (slots i) →
        ∀ j, i < j → j < n → slots i ∈ tree.ancestors (slots j)) ∧
      ((towers (k + 1)).voteState.rootSlot ≠ some (slots i) →
        ∀ j, i < j → j < n → slots i ∉ tree.ancestors (slots j) → slots i + 2 ^ c < slots j)) ∧
    (∀ i j, i < j → j < n → slots i ∉ tree.ancestors (slots j) →
      ∃ k c, i < k ∧ k ≤ j ∧ Leaves (towers k) (towers (k + 1)) (slots i) c) := by
  refine ⟨fun k hk => (hrun.sound k hk).2, ?_, ?_⟩
  · intro i k c hik hk hleaves
    exact ⟨hrun.rooted hik hk hleaves, hrun.expired hik hk hleaves⟩
  · intro i j hij hj hother
    exact hrun.leaves_before hij hj hother

end Run

/-- Every slot but 0 is a fork of its own on top of slot 0. -/
def starTree : BlockTree where
  ancestors s := if s = 0 then ∅ else {0}
  lt_of_mem {a b} h := by
    by_cases hb : b = 0
    · simp [hb] at h
    · simp only [hb, if_false, Finset.mem_singleton] at h
      rw [h]
      exact Nat.pos_of_ne_zero hb
  trans {a b c} hab hbc := by
    by_cases hc : c = 0
    · simp [hc] at hbc
    · simp only [hc, if_false, Finset.mem_singleton] at hbc
      simp [hbc] at hab
  linear {a b c} hac hbc := by
    by_cases hc : c = 0
    · simp [hc] at hac
    · simp only [hc, if_false, Finset.mem_singleton] at hac hbc
      exact .inl (hac.trans hbc.symm)

/-- A vote on slot 1, and on slot 4 of another fork once slot 1 has expired. -/
def switchSlots : Nat → Slot
  | 0 => 1
  | _ => 4

def switchTowers : Nat → Tower
  | 0 => Tower.default
  | k + 1 =>
    match (switchTowers k).recordBankVoteAndUpdateLockouts (switchSlots k) 0 0 with
    | .ok (t, _) => t
    | .error _ => switchTowers k

theorem switchTowers_lockout_safety :
    TowerRun starTree 2 switchTowers switchSlots ∧
      Leaves (switchTowers 1) (switchTowers 2) (switchSlots 0) 1 ∧
      switchSlots 0 + 2 ^ 1 < switchSlots 1 := by
  have hrun : TowerRun starTree 2 switchTowers switchSlots := by
    refine ⟨TowerInvariant.of_shape TowerShape.nil (by decide), List.Pairwise.nil, ?_⟩
    intro k hk
    obtain rfl | rfl : k = 0 ∨ k = 1 := by omega
    · exact ⟨by decide, by decide, 0, 0, none, by decide⟩
    · exact ⟨by decide, by decide, 0, 0, none, by decide⟩
  have hleaves : Leaves (switchTowers 1) (switchTowers 2) (switchSlots 0) 1 := by
    refine ⟨by decide, by decide⟩
  exact ⟨hrun, hleaves, ((tower_lockout_safety hrun).2.1 0 1 1 (by decide) (by decide) hleaves).2
    (by decide) 1 (by decide) (by decide) (by decide)⟩

end Nuah.Proofs
