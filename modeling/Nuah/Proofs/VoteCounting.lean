import Nuah.VoteListener
import Nuah.Lib.IndexMaps
import Nuah.Lib.OrderedMaps

/-!
# Votes count once

The accounts behind a block grow with each vote that counts, and a confirmation is sent when
their stake passes a threshold. How often it is sent over several votes is therefore decided
by the stake before and after all of them.
-/

namespace Nuah.Proofs

open IndexMaps OrderedMaps List
open Std (TreeMap)

variable {s' s₁ s₂ : CallState} {epoch : Epoch} {slots : List Slot}

variable {cfg : ListenerConfig}

variable {slot last : Slot} {s : CallState}

/-- How often a growing stake passes a threshold on its way from `a` to `b`. -/
def crossing (threshold a b : Nat) : Nat := if a ≤ threshold ∧ threshold < b then 1 else 0

lemma crossing_self (threshold a : Nat) : crossing threshold a a = 0 := if_neg (by omega)

lemma crossing_add {threshold a b c : Nat} (hab : a ≤ b) (hbc : b ≤ c) :
    crossing threshold a b + crossing threshold b c = crossing threshold a c := by
  unfold crossing
  split_ifs <;> omega

def stakeOf (cfg : ListenerConfig) (slot : Slot) (accounts : Finset Pubkey) : Nat :=
  ∑ a ∈ accounts, (cfg.stakes (cfg.getEpoch slot)).delegatedStake a

lemma stakeOf_mono {accounts accounts' : Finset Pubkey} (h : accounts ⊆ accounts') :
    stakeOf cfg slot accounts ≤ stakeOf cfg slot accounts' :=
  Finset.sum_le_sum_of_subset h

/-- The stake that the accounts behind a block of the slot have to exceed. -/
def thresholdAt (cfg : ListenerConfig) (threshold : ConfirmationThreshold) (slot : Slot) : Nat :=
  cfg.thresholdStake threshold (cfg.stakes (cfg.getEpoch slot)).totalStake

def stakeTrackerAt (tracker : VoteTracker) (slot : Slot) (hash : Hash) : VoteStakeTracker :=
  (tracker.slotTracker slot).optimisticVotesTracker[hash]?.getD .default

def votersAt (tracker : VoteTracker) (slot : Slot) (hash : Hash) : Finset Pubkey :=
  (stakeTrackerAt tracker slot hash).voted

def StakesCounted (cfg : ListenerConfig) (tracker : VoteTracker) : Prop :=
  ∀ slot hash, (stakeTrackerAt tracker slot hash).stake = stakeOf cfg slot (votersAt tracker slot hash)

lemma slotTracker_insert (tracker : VoteTracker) (slot x : Slot) (t : SlotVoteTracker) :
    (VoteTracker.slotTracker (tracker.insert slot t) x) =
      if x = slot then t else tracker.slotTracker x := by
  unfold VoteTracker.slotTracker
  rw [getElem?_insert_eq]
  split_ifs <;> rfl

/-- What processing votes has done: what was sent is what passed a threshold, and what is
known from gossip has not changed yet. -/
structure TalliesGrow (cfg : ListenerConfig) (s s' : CallState) : Prop where
  counted : StakesCounted cfg s'.tracker
  subset : ∀ slot hash, votersAt s.tracker slot hash ⊆ votersAt s'.tracker slot hash
  optimistic : ∀ slot hash, s'.newOptimisticConfirmedSlots.count (slot, hash) =
    s.newOptimisticConfirmedSlots.count (slot, hash) +
      crossing (thresholdAt cfg .voteThresholdSize slot)
        (stakeOf cfg slot (votersAt s.tracker slot hash))
        (stakeOf cfg slot (votersAt s'.tracker slot hash))
  duplicate : ∀ slot hash, s'.duplicateConfirmedSlots.count (slot, hash) =
    s.duplicateConfirmedSlots.count (slot, hash) +
      crossing (thresholdAt cfg .duplicateThreshold slot)
        (stakeOf cfg slot (votersAt s.tracker slot hash))
        (stakeOf cfg slot (votersAt s'.tracker slot hash))
  voted : ∀ slot, (s'.tracker.slotTracker slot).voted = (s.tracker.slotTracker slot).voted
  gossipOnlyStake : ∀ slot,
    (s'.tracker.slotTracker slot).gossipOnlyStake = (s.tracker.slotTracker slot).gossipOnlyStake

lemma tallied_of_eq (hcounted : StakesCounted cfg s.tracker) (htracker : s'.tracker = s.tracker)
    (hoptimistic : s'.newOptimisticConfirmedSlots = s.newOptimisticConfirmedSlots)
    (hduplicate : s'.duplicateConfirmedSlots = s.duplicateConfirmedSlots) :
    TalliesGrow cfg s s' where
  counted := htracker ▸ hcounted
  subset slot hash := by rw [htracker]
  optimistic slot hash := by rw [htracker, hoptimistic, crossing_self, Nat.add_zero]
  duplicate slot hash := by rw [htracker, hduplicate, crossing_self, Nat.add_zero]
  voted slot := by rw [htracker]
  gossipOnlyStake slot := by rw [htracker]

lemma TalliesGrow.trans {s₃ : CallState} (h : TalliesGrow cfg s₁ s₂) (h' : TalliesGrow cfg s₂ s₃) :
    TalliesGrow cfg s₁ s₃ where
  counted := h'.counted
  subset slot hash := (h.subset slot hash).trans (h'.subset slot hash)
  optimistic slot hash := by
    rw [h'.optimistic, h.optimistic, Nat.add_assoc,
      crossing_add (stakeOf_mono (h.subset slot hash)) (stakeOf_mono (h'.subset slot hash))]
  duplicate slot hash := by
    rw [h'.duplicate, h.duplicate, Nat.add_assoc,
      crossing_add (stakeOf_mono (h.subset slot hash)) (stakeOf_mono (h'.subset slot hash))]
  voted slot := (h'.voted slot).trans (h.voted slot)
  gossipOnlyStake slot := (h'.gossipOnlyStake slot).trans (h.gossipOnlyStake slot)

section LastSlot

variable {v : ParsedVote} {isGossip : Bool}

lemma trackLastSlot_tracker (stakes : EpochStakes) :
    (trackLastSlot cfg stakes v isGossip slot s).1.tracker =
      s.tracker.insert slot { s.tracker.slotTracker slot with
        optimisticVotesTracker := (s.tracker.slotTracker slot).optimisticVotesTracker.insert v.hash
          ((stakeTrackerAt s.tracker slot v.hash).addVotePubkey v.votePubkey
            (stakes.delegatedStake v.votePubkey) (thresholdsToCheck.map fun threshold =>
              cfg.thresholdStake threshold stakes.totalStake)).1 } := rfl

lemma stakeTrackerAt_trackLastSlot (stakes : EpochStakes) (x : Slot) (h : Hash) :
    stakeTrackerAt (trackLastSlot cfg stakes v isGossip slot s).1.tracker x h =
      if x = slot ∧ h = v.hash then
        ((stakeTrackerAt s.tracker x h).addVotePubkey v.votePubkey
          (stakes.delegatedStake v.votePubkey) (thresholdsToCheck.map fun threshold =>
            cfg.thresholdStake threshold stakes.totalStake)).1
      else stakeTrackerAt s.tracker x h := by
  rw [trackLastSlot_tracker, stakeTrackerAt, slotTracker_insert]
  by_cases hx : x = slot
  · subst hx
    rw [if_pos rfl, getElem?_insert_eq]
    by_cases hh : h = v.hash
    · simp [hh]
    · rw [if_neg hh, if_neg (by simp [hh])]
      rfl
  · rw [if_neg hx, if_neg (by simp [hx])]
    rfl

lemma addVotePubkey_voted (t : VoteStakeTracker) (pubkey : Pubkey) (stake : Nat)
    (thresholds : List Nat) :
    (t.addVotePubkey pubkey stake thresholds).1.voted = insert pubkey t.voted := by
  unfold VoteStakeTracker.addVotePubkey
  by_cases h : pubkey ∈ t.voted
  · rw [if_neg (by simpa using h)]
    exact (Finset.insert_eq_self.2 h).symm
  · rw [if_pos h]

lemma votersAt_trackLastSlot (stakes : EpochStakes) (x : Slot) (h : Hash) :
    votersAt (trackLastSlot cfg stakes v isGossip slot s).1.tracker x h =
      if x = slot ∧ h = v.hash then insert v.votePubkey (votersAt s.tracker x h)
      else votersAt s.tracker x h := by
  rw [votersAt, stakeTrackerAt_trackLastSlot]
  split_ifs
  · exact addVotePubkey_voted _ _ _ _
  · rfl

/-- The stake grows by that of the account, if it is new, and the results say which
thresholds it passed. -/
lemma addVotePubkey_counted {t : VoteStakeTracker} {x : Slot}
    (hcounted : t.stake = stakeOf cfg x t.voted) (pubkey : Pubkey) (thresholds : List Nat) :
    (t.addVotePubkey pubkey ((cfg.stakes (cfg.getEpoch x)).delegatedStake pubkey) thresholds).1.stake =
      stakeOf cfg x (insert pubkey t.voted) ∧
    (t.addVotePubkey pubkey ((cfg.stakes (cfg.getEpoch x)).delegatedStake pubkey) thresholds).2.1 =
      thresholds.map (fun threshold => decide (crossing threshold (stakeOf cfg x t.voted)
        (stakeOf cfg x (insert pubkey t.voted)) = 1)) := by
  unfold VoteStakeTracker.addVotePubkey
  by_cases h : pubkey ∉ t.voted
  · have hsum : stakeOf cfg x (insert pubkey t.voted) =
        t.stake + (cfg.stakes (cfg.getEpoch x)).delegatedStake pubkey := by
      rw [hcounted, stakeOf, Finset.sum_insert h, Nat.add_comm]
      rfl
    rw [if_pos h]
    refine ⟨hsum.symm, ?_⟩
    simp only [hsum, ← hcounted, crossing]
    refine map_congr_left (fun threshold _ => ?_)
    split_ifs with hcross <;> simp [hcross]
  · have hinsert : insert pubkey t.voted = t.voted := Finset.insert_eq_self.2 (by simpa using h)
    rw [if_neg h, hinsert]
    exact ⟨hcounted, by simp [crossing_self]⟩

lemma count_append_if {β : Type} [BEq β] [LawfulBEq β] [DecidableEq β] (l : List β) (b b' : β) (p : Prop) [Decidable p] :
    (if p then l ++ [b] else l).count b' = l.count b' + if b' = b ∧ p then 1 else 0 := by
  by_cases hp : p
  · by_cases hb : b' = b
    · simp [hp, hb]
    · have hb' : ¬ b = b' := fun h => hb h.symm
      simp [hp, hb, count_append, hb']
  · simp [hp]

lemma trackLastSlot_tallied (hcounted : StakesCounted cfg s.tracker) :
    TalliesGrow cfg s
      (trackLastSlot cfg (cfg.stakes (cfg.getEpoch slot)) v isGossip slot s).1 := by
  have hadded := addVotePubkey_counted (hcounted slot v.hash) v.votePubkey
    (thresholdsToCheck.map fun threshold =>
      cfg.thresholdStake threshold (cfg.stakes (cfg.getEpoch slot)).totalStake)
  -- what is sent for a threshold, from what adding the vote to its block returns
  have hcount : ∀ (threshold : ConfirmationThreshold) (i : Nat) (l : List (Slot × Hash)),
      thresholdsToCheck[i]? = some threshold → ∀ x h,
      (if ((stakeTrackerAt s.tracker slot v.hash).addVotePubkey v.votePubkey
          ((cfg.stakes (cfg.getEpoch slot)).delegatedStake v.votePubkey)
          (thresholdsToCheck.map fun threshold => cfg.thresholdStake threshold
            (cfg.stakes (cfg.getEpoch slot)).totalStake)).2.1.getD i false = true
        then l ++ [(slot, v.hash)] else l).count (x, h) =
      l.count (x, h) + crossing (thresholdAt cfg threshold x)
        (stakeOf cfg x (votersAt s.tracker x h))
        (stakeOf cfg x (votersAt (trackLastSlot cfg (cfg.stakes (cfg.getEpoch slot)) v isGossip
          slot s).1.tracker x h)) := by
    intro threshold i l hi x h
    rw [count_append_if, votersAt_trackLastSlot, hadded.2]
    congr 1
    by_cases hxh : x = slot ∧ h = v.hash
    · obtain ⟨rfl, rfl⟩ := hxh
      simp only [getD_eq_getElem?_getD, getElem?_map, hi, Option.map_some,
        Option.getD_some, decide_eq_true_eq, true_and, if_true, and_self]
      change (if crossing (thresholdAt cfg threshold x) (stakeOf cfg x (votersAt s.tracker x v.hash))
        (stakeOf cfg x (insert v.votePubkey (votersAt s.tracker x v.hash))) = 1 then 1 else 0) = _
      unfold crossing
      split_ifs <;> simp_all
    · rw [if_neg hxh, crossing_self, if_neg]
      simpa using fun hx hh => absurd ⟨hx, hh⟩ hxh
  refine ⟨?_, ?_, hcount .voteThresholdSize 1 _ rfl, hcount .duplicateThreshold 0 _ rfl, ?_, ?_⟩
  · intro x h
    rw [votersAt, stakeTrackerAt_trackLastSlot]
    split_ifs with hxh
    · obtain ⟨rfl, rfl⟩ := hxh
      rw [addVotePubkey_voted]
      exact hadded.1
    · exact hcounted x h
  · intro x h
    rw [votersAt_trackLastSlot]
    split_ifs
    · exact Finset.subset_insert _ _
    · exact subset_rfl
  · intro x
    rw [trackLastSlot_tracker, slotTracker_insert]
    split_ifs with hx
    · rw [hx]
    · rfl
  · intro x
    rw [trackLastSlot_tracker, slotTracker_insert]
    split_ifs with hx
    · rw [hx]
    · rfl

end LastSlot

/-- Whether an account is marked for a slot in what a call has gathered, and how. -/
def gathered (s : CallState) (slot : Slot) (a : Pubkey) : Option Bool :=
  (s.diff[slot]?.getD ∅)[a]?

lemma gathered_addToDiff (diff : TreeMap Slot (TreeMap Pubkey Bool)) (slot x : Slot)
    (pubkey a : Pubkey) (isGossip : Bool) :
    ((addToDiff diff slot pubkey isGossip)[x]?.getD ∅)[a]? =
      if x = slot ∧ a = pubkey then
        some ((diff[slot]?.getD ∅)[pubkey]?.getD false || isGossip)
      else (diff[x]?.getD ∅)[a]? := by
  unfold addToDiff
  rw [getElem?_insert_eq]
  by_cases hx : x = slot
  · subst hx
    rw [if_pos rfl, Option.getD_some, getElem?_insert_eq]
    by_cases ha : a = pubkey <;> simp [ha]
  · simp [hx]

/-- The slots that a call has gathered are above the root and have known stakes. -/
def GatheredKnown (cfg : ListenerConfig) (bank : RootBank) (s : CallState) : Prop :=
  ∀ slot, slot ∈ s.diff → cfg.getEpoch slot ∈ bank.knownEpochs

section Slots

variable {bank : RootBank} {v : ParsedVote} {isGossip : Bool} {latest : Slot}

/-- What the loop over the slots of a vote does: the vote counts for its last slot if that is
one of those the loop goes through, and a vote from gossip marks the others. -/
structure SlotsTracked (cfg : ListenerConfig) (bank : RootBank) (v : ParsedVote) (isGossip : Bool)
    (last latest : Slot) (slots : List Slot) (s s' : CallState) : Prop where
  tallied : TalliesGrow cfg s s'
  voters : ∀ x h, votersAt s'.tracker x h =
    if x = last ∧ h = v.hash ∧ last ∈ slots ∧ cfg.getEpoch last ∈ bank.knownEpochs then
      insert v.votePubkey (votersAt s.tracker x h)
    else votersAt s.tracker x h
  latest_eq : s'.latestVoteSlotPerValidator = s.latestVoteSlotPerValidator
  marked : ∀ x a, gathered s' x a = some true ↔ gathered s x a = some true ∨
    isGossip = true ∧ a = v.votePubkey ∧ x ∈ slots ∧ cfg.getEpoch x ∈ bank.knownEpochs ∧ latest ≤ x
  known : GatheredKnown cfg bank s → GatheredKnown cfg bank s'

lemma epochStakes_eq_none (h : bank.epochStakes cfg epoch = none) : epoch ∉ bank.knownEpochs := by
  intro hmem
  rw [RootBank.epochStakes, if_pos hmem] at h
  cases h

lemma epochStakes_eq_some {stakes : EpochStakes} (h : bank.epochStakes cfg epoch = some stakes) :
    epoch ∈ bank.knownEpochs ∧ stakes = cfg.stakes epoch := by
  unfold RootBank.epochStakes at h
  split_ifs at h with hmem
  cases h
  exact ⟨hmem, rfl⟩

/-- The round of the loop that may count the vote, before it is gathered. -/
def countRound (cfg : ListenerConfig) (v : ParsedVote) (isGossip : Bool) (last slot : Slot)
    (s : CallState) : CallState :=
  if slot = last then (trackLastSlot cfg (cfg.stakes (cfg.getEpoch slot)) v isGossip slot s).1 else s

lemma countRound_tallied (hcounted : StakesCounted cfg s.tracker) :
    TalliesGrow cfg s (countRound cfg v isGossip last slot s) := by
  unfold countRound
  split_ifs
  · exact trackLastSlot_tallied hcounted
  · exact tallied_of_eq hcounted rfl rfl rfl

lemma votersAt_countRound (x : Slot) (h : Hash) :
    votersAt (countRound cfg v isGossip last slot s).tracker x h =
      if x = last ∧ h = v.hash ∧ last ∈ [slot] then insert v.votePubkey (votersAt s.tracker x h)
      else votersAt s.tracker x h := by
  unfold countRound
  by_cases hlast : slot = last
  · subst hlast
    rw [if_pos rfl, votersAt_trackLastSlot]
    simp
  · have hlast' : ¬ last = slot := fun heq => hlast heq.symm
    rw [if_neg hlast, if_neg (by simp [hlast'])]

lemma countRound_latest : (countRound cfg v isGossip last slot s).latestVoteSlotPerValidator =
    s.latestVoteSlotPerValidator := by
  unfold countRound
  split_ifs <;> rfl

lemma countRound_diff : (countRound cfg v isGossip last slot s).diff = s.diff := by
  unfold countRound
  split_ifs <;> rfl

def gatherRound (v : ParsedVote) (isGossip : Bool) (latest slot : Slot) (s : CallState) : CallState :=
  if slot < latest then s else { s with diff := addToDiff s.diff slot v.votePubkey isGossip }

lemma gathered_gatherRound (x : Slot) (a : Pubkey) :
    gathered (gatherRound v isGossip latest slot s) x a = some true ↔
      gathered s x a = some true ∨
        isGossip = true ∧ a = v.votePubkey ∧ x ∈ [slot] ∧ latest ≤ x := by
  unfold gatherRound
  by_cases hlatest : slot < latest
  · rw [if_pos hlatest]
    refine ⟨.inl, fun h => h.resolve_right ?_⟩
    rintro ⟨-, -, hx, hle⟩
    rw [mem_singleton.1 hx] at hle
    exact absurd hlatest (Nat.not_lt.2 hle)
  · rw [if_neg hlatest]
    unfold gathered
    dsimp only
    rw [gathered_addToDiff]
    by_cases hxa : x = slot ∧ a = v.votePubkey
    · obtain ⟨rfl, rfl⟩ := hxa
      rw [if_pos ⟨rfl, rfl⟩]
      cases (s.diff[x]?.getD ∅)[v.votePubkey]? with
      | none => simp [Nat.not_lt.1 hlatest]
      | some b => cases b <;> simp [Nat.not_lt.1 hlatest]
    · rw [if_neg hxa]
      refine ⟨.inl, fun h => h.resolve_right ?_⟩
      rintro ⟨-, ha, hx, -⟩
      exact hxa ⟨mem_singleton.1 hx, ha⟩

lemma gatherRound_known (hslot : cfg.getEpoch slot ∈ bank.knownEpochs)
    (h : GatheredKnown cfg bank s) : GatheredKnown cfg bank (gatherRound v isGossip latest slot s) := by
  unfold gatherRound
  split_ifs
  · exact h
  · intro x hx
    rcases TreeMap.mem_insert.1 hx with heq | hx
    · rw [← Std.LawfulEqCmp.eq_of_compare heq]
      exact hslot
    · exact h x hx

lemma gatherRound_tallied (hcounted : StakesCounted cfg s.tracker) :
    TalliesGrow cfg s (gatherRound v isGossip latest slot s) := by
  unfold gatherRound
  split_ifs <;> exact tallied_of_eq hcounted rfl rfl rfl

lemma gatherRound_eq : (gatherRound v isGossip latest slot s).tracker = s.tracker ∧
    (gatherRound v isGossip latest slot s).latestVoteSlotPerValidator =
      s.latestVoteSlotPerValidator := by
  unfold gatherRound
  split_ifs <;> exact ⟨rfl, rfl⟩

section

variable (hcounted : StakesCounted cfg s.tracker)

include hcounted

lemma slotsTracked_nil :
    SlotsTracked cfg bank v isGossip last latest [] s s where
  tallied := tallied_of_eq hcounted rfl rfl rfl
  voters x h := by simp
  latest_eq := rfl
  marked x a := by simp
  known h := h

lemma slotsTracked_unknown (hslot : cfg.getEpoch slot ∉ bank.knownEpochs) :
    SlotsTracked cfg bank v isGossip last latest [slot] s s where
  tallied := tallied_of_eq hcounted rfl rfl rfl
  voters x h := by
    refine (if_neg ?_).symm
    rintro ⟨-, -, hmem, hknown⟩
    exact hslot (mem_singleton.1 hmem ▸ hknown)
  latest_eq := rfl
  marked x a := by
    refine ⟨.inl, fun h => h.resolve_right ?_⟩
    rintro ⟨-, -, hmem, hknown, -⟩
    exact hslot (mem_singleton.1 hmem ▸ hknown)
  known h := h

lemma slotsTracked_round (hslot : cfg.getEpoch slot ∈ bank.knownEpochs) :
    SlotsTracked cfg bank v isGossip last latest [slot] s
      (gatherRound v isGossip latest slot (countRound cfg v isGossip last slot s)) where
  tallied := (countRound_tallied hcounted).trans
    (gatherRound_tallied (countRound_tallied hcounted).counted)
  voters x h := by
    rw [gatherRound_eq.1, votersAt_countRound]
    refine if_congr (and_congr_right fun _ => and_congr_right fun _ => ?_) rfl rfl
    refine ⟨fun hmem => ⟨hmem, ?_⟩, And.left⟩
    rw [mem_singleton.1 hmem]
    exact hslot
  latest_eq := gatherRound_eq.2.trans countRound_latest
  marked x a := by
    rw [gathered_gatherRound, gathered, countRound_diff]
    refine or_congr_right (and_congr_right fun _ => and_congr_right fun _ => ?_)
    refine and_congr_right fun hmem => ⟨fun hle => ⟨?_, hle⟩, And.right⟩
    rw [mem_singleton.1 hmem]
    exact hslot
  known h := by
    refine gatherRound_known hslot ?_
    unfold GatheredKnown
    rw [countRound_diff]
    exact h

lemma slotsTracked_short (hlast : cfg.getEpoch last ∈ bank.knownEpochs) (slots : List Slot) :
    SlotsTracked cfg bank v false last latest (last :: slots) s
      (countRound cfg v false last last s) where
  tallied := countRound_tallied hcounted
  voters x h := by
    rw [votersAt_countRound]
    refine if_congr (and_congr_right fun _ => and_congr_right fun _ => ?_) rfl rfl
    simp [hlast]
  latest_eq := countRound_latest
  marked x a := by simp [gathered, countRound_diff]
  known h := by
    unfold GatheredKnown
    rw [countRound_diff]
    exact h

end

lemma SlotsTracked.cons (h : SlotsTracked cfg bank v isGossip last latest [slot] s s₁)
    (h' : SlotsTracked cfg bank v isGossip last latest slots s₁ s₂) :
    SlotsTracked cfg bank v isGossip last latest (slot :: slots) s s₂ where
  tallied := h.tallied.trans h'.tallied
  voters x hash := by
    rw [h'.voters, h.voters]
    by_cases hx : x = last ∧ hash = v.hash ∧ cfg.getEpoch last ∈ bank.knownEpochs
    · obtain ⟨hx, hhash, hknown⟩ := hx
      by_cases hmem : last ∈ [slot] <;> by_cases hmem' : last ∈ slots <;>
        simp_all
    · have hnot : ∀ l : List Slot, ¬ (x = last ∧ hash = v.hash ∧ last ∈ l ∧
          cfg.getEpoch last ∈ bank.knownEpochs) := fun l ⟨h₁, h₂, _, h₃⟩ => hx ⟨h₁, h₂, h₃⟩
      rw [if_neg (hnot _), if_neg (hnot _), if_neg (hnot _)]
  latest_eq := h'.latest_eq.trans h.latest_eq
  marked x a := by
    rw [h'.marked, h.marked, or_assoc]
    refine or_congr_right ⟨?_, ?_⟩
    · rintro (⟨hg, ha, hx, hrest⟩ | ⟨hg, ha, hx, hrest⟩)
      · exact ⟨hg, ha, mem_cons.2 (.inl (mem_singleton.1 hx)), hrest⟩
      · exact ⟨hg, ha, mem_cons_of_mem _ hx, hrest⟩
    · rintro ⟨hg, ha, hx, hrest⟩
      rcases mem_cons.1 hx with hx | hx
      · exact .inl ⟨hg, ha, mem_singleton.2 hx, hrest⟩
      · exact .inr ⟨hg, ha, hx, hrest⟩
  known hk := h'.known (h.known hk)

lemma trackSlots_tracked (isNewVote : Bool) (hcounted : StakesCounted cfg s.tracker) :
    SlotsTracked cfg bank v isGossip last latest slots s
      (trackSlots cfg bank v isGossip last latest slots isNewVote s).1 := by
  induction slots generalizing s isNewVote with
  | nil => exact slotsTracked_nil hcounted
  | cons slot slots ih =>
    rw [trackSlots]
    cases hstakes : bank.epochStakes cfg (cfg.getEpoch slot) with
    | none =>
      exact (slotsTracked_unknown hcounted (epochStakes_eq_none hstakes)).cons (ih _ hcounted)
    | some stakes =>
      obtain ⟨hknown, rfl⟩ := epochStakes_eq_some hstakes
      have hround : SlotsTracked cfg bank v isGossip last latest [slot] s
          (gatherRound v isGossip latest slot (countRound cfg v isGossip last slot s)) :=
        slotsTracked_round hcounted hknown
      have hrest := fun isNew => hround.cons (ih isNew hround.tallied.counted)
      by_cases hlast : slot = last
      · subst hlast
        simp only [if_true]
        by_cases hshort : (!(trackLastSlot cfg (cfg.stakes (cfg.getEpoch slot)) v isGossip slot
            s).2 && !isGossip) = true
        · rw [if_pos hshort]
          have hreplay : isGossip = false := by
            simp only [Bool.and_eq_true, Bool.not_eq_true'] at hshort
            exact hshort.2
          subst hreplay
          have hstop : SlotsTracked cfg bank v false slot latest (slot :: slots) s
              (countRound cfg v false slot slot s) := slotsTracked_short hcounted hknown slots
          rwa [countRound, if_pos rfl] at hstop
        · rw [if_neg hshort]
          have hgo := hrest (trackLastSlot cfg (cfg.stakes (cfg.getEpoch slot)) v isGossip slot s).2
          rw [gatherRound, countRound, if_pos rfl] at hgo
          exact hgo
      · have hgo := hrest isNewVote
        rw [gatherRound, countRound, if_neg hlast] at hgo
        simpa only [if_neg hlast, Bool.false_eq_true, if_false] using hgo

end Slots

/-- The vote counts for the block: it is the last one of the vote, above the root, and the
stakes of its epoch are known. -/
def CountsFor (cfg : ListenerConfig) (bank : RootBank) (slot : Slot) (hash : Hash)
    (v : ParsedVote) : Prop :=
  v.slots.getLast? = some slot ∧ v.hash = hash ∧ bank.slot < slot ∧
    cfg.getEpoch slot ∈ bank.knownEpochs

instance (cfg : ListenerConfig) (bank : RootBank) (slot : Slot) (hash : Hash) (v : ParsedVote) :
    Decidable (CountsFor cfg bank slot hash v) := by
  unfold CountsFor
  infer_instance

/-- The vote is one of the account for the slot, and the slot is not before the latest one. -/
def VotesFor (cfg : ListenerConfig) (bank : RootBank) (latest slot : Slot) (a : Pubkey)
    (v : ParsedVote) : Prop :=
  v.votePubkey = a ∧ slot ∈ v.slots ∧ bank.slot < slot ∧
    cfg.getEpoch slot ∈ bank.knownEpochs ∧ latest ≤ slot

def latestOf (s : CallState) (a : Pubkey) : Slot := s.latestVoteSlotPerValidator[a]?.getD 0

structure VoteTracked (cfg : ListenerConfig) (bank : RootBank) (isGossip : Bool) (v : ParsedVote)
    (s s' : CallState) : Prop where
  tallied : TalliesGrow cfg s s'
  voters : ∀ x h, votersAt s'.tracker x h = if CountsFor cfg bank x h v then
    insert v.votePubkey (votersAt s.tracker x h) else votersAt s.tracker x h
  marked : ∀ x a, gathered s' x a = some true ↔ gathered s x a = some true ∨
    isGossip = true ∧ VotesFor cfg bank (latestOf s a) x a v
  known : GatheredKnown cfg bank s → GatheredKnown cfg bank s'

section Votes

variable {bank : RootBank} {isGossip : Bool} {v : ParsedVote}

lemma SlotsTracked.vote (hlast : v.slots.getLast? = some last)
    (h : SlotsTracked cfg bank v isGossip last (latestOf s v.votePubkey) (v.slots.filter fun slot => decide (bank.slot < slot)).reverse s s')
    (latest : TreeMap Pubkey Slot) (verified : List (Pubkey × List Slot)) :
    VoteTracked cfg bank isGossip v s
      { s' with latestVoteSlotPerValidator := latest, verifiedVotes := verified } where
  tallied := h.tallied.trans (tallied_of_eq h.tallied.counted rfl rfl rfl)
  voters x hash := by
    rw [h.voters]
    refine if_congr ?_ rfl rfl
    simp only [mem_reverse, mem_filter, decide_eq_true_eq, CountsFor, hlast, Option.some.injEq]
    constructor
    · rintro ⟨rfl, rfl, ⟨-, hroot⟩, hknown⟩
      exact ⟨rfl, rfl, hroot, hknown⟩
    · rintro ⟨rfl, rfl, hroot, hknown⟩
      exact ⟨rfl, rfl, ⟨mem_of_getLast? hlast, hroot⟩, hknown⟩
  marked x a := by
    have hgathered : gathered { s' with
        latestVoteSlotPerValidator := latest, verifiedVotes := verified } x a = gathered s' x a := rfl
    rw [hgathered, h.marked]
    simp only [mem_reverse, mem_filter, decide_eq_true_eq, VotesFor]
    refine or_congr_right (and_congr_right fun _ => ?_)
    constructor
    · rintro ⟨rfl, ⟨hmem, hroot⟩, hknown, hle⟩
      exact ⟨rfl, hmem, hroot, hknown, hle⟩
    · rintro ⟨rfl, hmem, hroot, hknown, hle⟩
      exact ⟨rfl, ⟨hmem, hroot⟩, hknown, hle⟩
  known := h.known

lemma trackVote_tracked (hcounted : StakesCounted cfg s.tracker) :
    VoteTracked cfg bank isGossip v s
      (trackNewVotesAndNotifyConfirmations cfg bank isGossip s v) := by
  unfold trackNewVotesAndNotifyConfirmations
  cases hlast : v.slots.getLast? with
  | none =>
    have hempty := getLast?_eq_none_iff.1 hlast
    refine ⟨tallied_of_eq hcounted rfl rfl rfl, fun x h => ?_, fun x a => ?_, id⟩
    · refine (if_neg ?_).symm
      rintro ⟨hx, -⟩
      cases hlast.symm.trans hx
    · simp [VotesFor, hempty]
  | some last =>
    have htracked : SlotsTracked cfg bank v isGossip last (latestOf s v.votePubkey)
        (v.slots.filter fun slot => decide (bank.slot < slot)).reverse s _ :=
      trackSlots_tracked false hcounted
    dsimp only
    unfold latestOf at htracked
    split
    · next s' heq =>
      rw [heq] at htracked
      exact htracked.vote hlast _ _
    · next s' isNewVote heq =>
      rw [heq] at htracked
      exact htracked.vote hlast _ _

def countingVoters (cfg : ListenerConfig) (bank : RootBank) (slot : Slot) (hash : Hash)
    (votes : List ParsedVote) : Finset Pubkey :=
  ((votes.filter fun v => decide (CountsFor cfg bank slot hash v)).map ParsedVote.votePubkey).toFinset

lemma countingVoters_append (slot : Slot) (hash : Hash) (votes votes' : List ParsedVote) :
    countingVoters cfg bank slot hash (votes ++ votes') =
      countingVoters cfg bank slot hash votes ∪ countingVoters cfg bank slot hash votes' := by
  simp [countingVoters]

variable (bank isGossip) in
lemma trackVotes_tracked (votes : List ParsedVote) (hcounted : StakesCounted cfg s.tracker) :
    TalliesGrow cfg s (votes.foldl (trackNewVotesAndNotifyConfirmations cfg bank isGossip) s) ∧
    (∀ x h, votersAt (votes.foldl (trackNewVotesAndNotifyConfirmations cfg bank isGossip) s).tracker
      x h = votersAt s.tracker x h ∪ countingVoters cfg bank x h votes) ∧
    (∀ x a, gathered (votes.foldl (trackNewVotesAndNotifyConfirmations cfg bank isGossip) s) x a =
        some true ↔ gathered s x a = some true ∨ isGossip = true ∧ ∃ i v, votes[i]? = some v ∧
      VotesFor cfg bank (latestOf ((votes.take i).foldl
        (trackNewVotesAndNotifyConfirmations cfg bank isGossip) s) a) x a v) ∧
    (GatheredKnown cfg bank s → GatheredKnown cfg bank
      (votes.foldl (trackNewVotesAndNotifyConfirmations cfg bank isGossip) s)) := by
  induction votes using List.reverseRecOn with
  | nil => exact ⟨tallied_of_eq hcounted rfl rfl rfl, by simp [countingVoters], by simp, id⟩
  | append_singleton votes v ih =>
    obtain ⟨htallied, hvoters, hmarked, hknown⟩ := ih
    rw [foldl_append, foldl_cons, foldl_nil]
    have hv : VoteTracked cfg bank isGossip v _ _ := trackVote_tracked htallied.counted
    refine ⟨htallied.trans hv.tallied, fun x h => ?_, fun x a => ?_, fun hk => hv.known (hknown hk)⟩
    · rw [hv.voters, hvoters, countingVoters_append]
      split_ifs with hcounts
      · simp [countingVoters, hcounts]
      · simp [countingVoters, hcounts]
    · rw [hv.marked, hmarked, or_assoc, ← and_or_left, exists_getElem?_concat
        (P := fun before v => VotesFor cfg bank (latestOf (before.foldl
          (trackNewVotesAndNotifyConfirmations cfg bank isGossip) s) a) x a v)]

end Votes

end Nuah.Proofs
