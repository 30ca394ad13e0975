import Nuah.Proofs.VoteCounting

/-!
# Optimistic confirmation over whole runs

What the calls of the vote listener confirm, and which votes they know from gossip, in every
run in which the root does not go back.
-/

namespace Nuah.Proofs

open IndexMaps OrderedMaps List
open Std (TreeMap)

variable {a : Pubkey} {steps : List ListenerStep}

variable {cfg : ListenerConfig} {bank : RootBank}

/-- The account is marked as having voted for the slot on gossip. -/
def Marked (tracker : VoteTracker) (slot : Slot) (a : Pubkey) : Prop :=
  (tracker.slotTracker slot).voted[a]? = some true

/-- The gossip-only stake of the slot is that of the accounts marked for it. -/
def GossipCounted (cfg : ListenerConfig) (tracker : VoteTracker) (slot : Slot) : Prop :=
  ∃ accounts : Finset Pubkey, (∀ a, a ∈ accounts ↔ Marked tracker slot a) ∧
    (tracker.slotTracker slot).gossipOnlyStake = stakeOf cfg slot accounts

section ApplyDiff

variable {tracker : VoteTracker} {slot : Slot} {d : TreeMap Pubkey Bool}

/-- The pairs that are new for the slot, of those gathered for it. -/
def keptOf (tracker : VoteTracker) (slot : Slot) (d : TreeMap Pubkey Bool) : List (Pubkey × Bool) :=
  d.toList.filter (isNewForSlot (tracker.slotTracker slot))

lemma keptOf_distinct :
    (keptOf tracker slot d).Pairwise (fun p q => ¬ compare p.1 q.1 = Ordering.eq) :=
  TreeMap.distinct_keys_toList.filter _

lemma not_marked_of_mem_keptOf {b : Bool} (h : (a, b) ∈ keptOf tracker slot d) :
    ¬ Marked tracker slot a := by
  intro hmarked
  have hnew := (mem_filter.1 h).2
  rw [isNewForSlot, hmarked] at hnew
  simp at hnew

lemma mem_keptOf_true_iff :
    (a, true) ∈ keptOf tracker slot d ↔ d[a]? = some true ∧ ¬ Marked tracker slot a := by
  unfold keptOf
  rw [mem_filter, TreeMap.mem_toList_iff_getElem?_eq_some]
  refine and_congr_right fun _ => ?_
  unfold isNewForSlot Marked
  cases (tracker.slotTracker slot).voted[a]? with
  | none => simp
  | some b => cases b <;> simp

lemma slotTracker_applySlotDiff (x : Slot) :
    VoteTracker.slotTracker (applySlotDiff cfg bank tracker (slot, d)) x =
      if x = slot then
        { tracker.slotTracker slot with
          voted := (tracker.slotTracker slot).voted.insertMany (keptOf tracker slot d)
          votedSlotUpdates := some ((tracker.slotTracker slot).votedSlotUpdates.getD [] ++
            (keptOf tracker slot d).map Prod.fst)
          gossipOnlyStake := (tracker.slotTracker slot).gossipOnlyStake +
            sumStake (bank.epochStakes cfg (cfg.getEpoch slot))
              (((keptOf tracker slot d).filter fun q => q.2).map Prod.fst) }
      else tracker.slotTracker x :=
  slotTracker_insert _ _ _ _

lemma marked_applySlotDiff (x : Slot) (a : Pubkey) :
    Marked (applySlotDiff cfg bank tracker (slot, d)) x a ↔
      Marked tracker x a ∨ x = slot ∧ d[a]? = some true := by
  unfold Marked
  rw [slotTracker_applySlotDiff]
  by_cases hx : x = slot
  · subst hx
    rw [if_pos rfl, getElem?_insertMany_eq_some_iff _ keptOf_distinct, mem_keptOf_true_iff]
    change _ ∨ _ ∧ Marked tracker x a ↔ Marked tracker x a ∨ _
    by_cases hmarked : Marked tracker x a
    · have hnot : ∀ b, (a, b) ∉ keptOf tracker x d := fun b hb =>
        not_marked_of_mem_keptOf hb hmarked
      simp [hmarked, hnot]
    · simp [hmarked]
  · simp [hx]

lemma votersAt_applySlotDiff (x : Slot) (h : Hash) :
    stakeTrackerAt (applySlotDiff cfg bank tracker (slot, d)) x h = stakeTrackerAt tracker x h := by
  unfold stakeTrackerAt
  rw [slotTracker_applySlotDiff]
  split_ifs with hx
  · rw [hx]
  · rfl

lemma gossipCounted_applySlotDiff (hknown : cfg.getEpoch slot ∈ bank.knownEpochs) (x : Slot)
    (h : GossipCounted cfg tracker x) :
    GossipCounted cfg (applySlotDiff cfg bank tracker (slot, d)) x := by
  obtain ⟨accounts, haccounts, hstake⟩ := h
  by_cases hx : x = slot
  · subst hx
    let seen := ((keptOf tracker x d).filter fun q => q.2).map Prod.fst
    have hseen : ∀ a, a ∈ seen ↔ d[a]? = some true ∧ ¬ Marked tracker x a := by
      intro a
      rw [← mem_keptOf_true_iff, mem_map]
      constructor
      · rintro ⟨⟨b, m⟩, hb, rfl⟩
        obtain ⟨hmem, hm⟩ := mem_filter.1 hb
        have hm : m = true := hm
        exact hm ▸ hmem
      · intro hmem
        exact ⟨(a, true), mem_filter.2 ⟨hmem, rfl⟩, rfl⟩
    have hnodup : seen.Nodup := by
      refine pairwise_map.2 ((keptOf_distinct.filter _).imp fun {p q} hpq heq => hpq ?_)
      rw [heq]
      exact Std.ReflCmp.compare_self
    have hdisjoint : Disjoint accounts seen.toFinset := by
      rw [Finset.disjoint_left]
      intro a ha hs
      exact ((hseen a).1 (mem_toFinset.1 hs)).2 ((haccounts a).1 ha)
    refine ⟨accounts ∪ seen.toFinset, fun a => ?_, ?_⟩
    · rw [marked_applySlotDiff, Finset.mem_union, haccounts, mem_toFinset, hseen]
      by_cases hm : Marked tracker x a <;> simp [hm]
    · rw [slotTracker_applySlotDiff, if_pos rfl, RootBank.epochStakes, if_pos hknown, hstake,
        stakeOf, stakeOf, Finset.sum_union hdisjoint, sum_toFinset _ hnodup]
      rfl
  · refine ⟨accounts, fun a => ?_, ?_⟩
    · rw [haccounts, marked_applySlotDiff]
      simp [hx]
    · rw [slotTracker_applySlotDiff, if_neg hx]
      exact hstake

lemma applyDiff_spec (l : List (Slot × TreeMap Pubkey Bool))
    (hknown : ∀ p ∈ l, cfg.getEpoch p.1 ∈ bank.knownEpochs) (tracker : VoteTracker) :
    (∀ x h, stakeTrackerAt (l.foldl (applySlotDiff cfg bank) tracker) x h =
      stakeTrackerAt tracker x h) ∧
    (∀ x, GossipCounted cfg tracker x →
      GossipCounted cfg (l.foldl (applySlotDiff cfg bank) tracker) x) ∧
    ∀ x a, Marked (l.foldl (applySlotDiff cfg bank) tracker) x a ↔
      Marked tracker x a ∨ ∃ d, (x, d) ∈ l ∧ d[a]? = some true := by
  induction l generalizing tracker with
  | nil => simp
  | cons p l ih =>
    obtain ⟨slot, d⟩ := p
    obtain ⟨hvoters, hcounted, hmarked⟩ := ih (fun q hq => hknown q (mem_cons_of_mem _ hq))
      (applySlotDiff cfg bank tracker (slot, d))
    refine ⟨fun x h => ?_, fun x h => ?_, fun x a => ?_⟩
    · rw [foldl_cons, hvoters, votersAt_applySlotDiff]
    · exact hcounted x (gossipCounted_applySlotDiff (hknown (slot, d) mem_cons_self) x h)
    · rw [foldl_cons, hmarked, marked_applySlotDiff, or_assoc]
      refine or_congr_right ⟨?_, ?_⟩
      · rintro (⟨rfl, hd⟩ | ⟨e, he, hd⟩)
        · exact ⟨d, mem_cons_self, hd⟩
        · exact ⟨e, mem_cons_of_mem _ he, hd⟩
      · rintro ⟨e, he, hd⟩
        rcases mem_cons.1 he with heq | he
        · cases heq
          exact .inl ⟨rfl, hd⟩
        · exact .inr ⟨e, he, hd⟩

end ApplyDiff

/-- What a step does to the accounts behind blocks, what it sends, and which accounts it marks. -/
structure StepCounted (cfg : ListenerConfig) (s : ListenerState) (voters : Slot → Hash → Finset Pubkey)
    (marks : Slot → Pubkey → Prop) (s' : ListenerState) (c : Confirmations) : Prop where
  counted : StakesCounted cfg s'.tracker
  gossipCounted : ∀ x, GossipCounted cfg s'.tracker x
  voters_eq : ∀ x h, votersAt s'.tracker x h = votersAt s.tracker x h ∪ voters x h
  optimistic : ∀ x h, c.newOptimisticConfirmedSlots.count (x, h) =
    crossing (thresholdAt cfg .voteThresholdSize x) (stakeOf cfg x (votersAt s.tracker x h))
      (stakeOf cfg x (votersAt s'.tracker x h))
  duplicate : ∀ x h, c.duplicateConfirmedSlots.count (x, h) =
    crossing (thresholdAt cfg .duplicateThreshold x) (stakeOf cfg x (votersAt s.tracker x h))
      (stakeOf cfg x (votersAt s'.tracker x h))
  marked : ∀ x a, Marked s'.tracker x a ↔ Marked s.tracker x a ∨ marks x a

/-- What is sent for a threshold. -/
def sentFor (c : Confirmations) : ConfirmationThreshold → List (Slot × Hash)
  | .voteThresholdSize => c.newOptimisticConfirmedSlots
  | .duplicateThreshold => c.duplicateConfirmedSlots

lemma StepCounted.sent {s s' : ListenerState} {voters : Slot → Hash → Finset Pubkey}
    {marks : Slot → Pubkey → Prop} {c : Confirmations} (hs : StepCounted cfg s voters marks s' c)
    (threshold : ConfirmationThreshold) (x : Slot) (h : Hash) :
    (sentFor c threshold).count (x, h) = crossing (thresholdAt cfg threshold x)
      (stakeOf cfg x (votersAt s.tracker x h)) (stakeOf cfg x (votersAt s'.tracker x h)) := by
  cases threshold with
  | duplicateThreshold => exact hs.duplicate x h
  | voteThresholdSize => exact hs.optimistic x h

/-- A vote of the account for the slot, among those of a call from gossip. -/
def SeenInCall (cfg : ListenerConfig) (bank : RootBank) (s : ListenerState)
    (gossipVotes : List ParsedVote) (slot : Slot) (a : Pubkey) : Prop :=
  ∃ i v, gossipVotes[i]? = some v ∧ VotesFor cfg bank (latestOf ((gossipVotes.take i).foldl
    (trackNewVotesAndNotifyConfirmations cfg bank true) (.start s)) a) slot a v

lemma gathered_iff_mem {c : CallState} {x : Slot} :
    (∃ d, (x, d) ∈ c.diff.toList ∧ d[a]? = some true) ↔ gathered c x a = some true := by
  unfold gathered
  simp only [TreeMap.mem_toList_iff_getElem?_eq_some]
  cases c.diff[x]? with
  | none => simp
  | some d => simp

variable (bank) in
lemma filterAndConfirm_counted {s : ListenerState} (hcounted : StakesCounted cfg s.tracker)
    (hgossip : ∀ x, GossipCounted cfg s.tracker x) (gossipVotes replayedVotes : List ParsedVote) :
    StepCounted cfg s (fun x h => countingVoters cfg bank x h (gossipVotes ++ replayedVotes))
      (SeenInCall cfg bank s gossipVotes)
      (filterAndConfirmWithNewVotes cfg bank s gossipVotes replayedVotes).1
      (filterAndConfirmWithNewVotes cfg bank s gossipVotes replayedVotes).2 := by
  have hstart : StakesCounted cfg (CallState.start s).tracker := hcounted
  have hnone : ∀ x a, gathered (CallState.start s) x a = none := fun x a => by
    simp [gathered, CallState.start]
  have hknown₀ : GatheredKnown cfg bank (CallState.start s) := fun x hx => by
    simp [CallState.start] at hx
  obtain ⟨htallied₁, hvoters₁, hmarked₁, hknown₁⟩ :=
    trackVotes_tracked bank true gossipVotes hstart
  obtain ⟨htallied₂, hvoters₂, hmarked₂, hknown₂⟩ :=
    trackVotes_tracked bank false replayedVotes htallied₁.counted
  have htallied := htallied₁.trans htallied₂
  have hcall : replayedVotes.foldl (trackNewVotesAndNotifyConfirmations cfg bank false)
      (gossipVotes.foldl (trackNewVotesAndNotifyConfirmations cfg bank true) (.start s)) =
      processVotes cfg bank s gossipVotes replayedVotes := rfl
  rw [hcall] at htallied hvoters₂ hmarked₂ hknown₂
  have hknown := hknown₂ (hknown₁ hknown₀)
  obtain ⟨happly, hgossip', hmarked⟩ := applyDiff_spec
    (processVotes cfg bank s gossipVotes replayedVotes).diff.toList
    (fun p hp => hknown p.1 (by
      rw [TreeMap.mem_iff_isSome_getElem?, TreeMap.mem_toList_iff_getElem?_eq_some.1 hp]
      rfl))
    (processVotes cfg bank s gossipVotes replayedVotes).tracker
  have hvoters' : ∀ x h, votersAt
      (filterAndConfirmWithNewVotes cfg bank s gossipVotes replayedVotes).1.tracker x h =
      votersAt (processVotes cfg bank s gossipVotes replayedVotes).tracker x h := fun x h =>
    congrArg VoteStakeTracker.voted (happly x h)
  refine ⟨?_, ?_, ?_, ?_, ?_, ?_⟩
  · intro x h
    rw [hvoters', ← htallied.counted x h]
    exact congrArg VoteStakeTracker.stake (happly x h)
  · intro x
    refine hgossip' x ?_
    obtain ⟨accounts, haccounts, hstake⟩ := hgossip x
    refine ⟨accounts, fun a => ?_, ?_⟩
    · rw [haccounts, Marked, Marked, htallied.voted]
      rfl
    · rw [htallied.gossipOnlyStake]
      exact hstake
  · intro x h
    rw [hvoters', hvoters₂, hvoters₁, countingVoters_append, Finset.union_assoc]
    rfl
  · intro x h
    rw [hvoters']
    exact (htallied.optimistic x h).trans (Nat.zero_add _)
  · intro x h
    rw [hvoters']
    exact (htallied.duplicate x h).trans (Nat.zero_add _)
  · intro x a
    have hprocess : Marked (processVotes cfg bank s gossipVotes replayedVotes).tracker x a ↔
        Marked s.tracker x a := by
      rw [Marked, Marked, htallied.voted]
      rfl
    refine (hmarked x a).trans ?_
    rw [hprocess, gathered_iff_mem, hmarked₂, hmarked₁, hnone]
    simp [SeenInCall]

lemma slotTracker_purge (s : ListenerState) (bank : RootBank) (x : Slot) :
    VoteTracker.slotTracker (purgeStaleState s bank).tracker x =
      if bank.slot ≤ x then s.tracker.slotTracker x else .default := by
  unfold VoteTracker.slotTracker purgeStaleState
  dsimp only
  rw [TreeMap.getElem?_filter']
  by_cases hx : bank.slot ≤ x
  · cases s.tracker[x]? <;> simp [hx, Option.filter]
  · cases s.tracker[x]? <;> simp [hx]

lemma purge_counted {s : ListenerState} (hcounted : StakesCounted cfg s.tracker)
    (hgossip : ∀ x, GossipCounted cfg s.tracker x) (bank : RootBank) :
    StakesCounted cfg (purgeStaleState s bank).tracker ∧
      ∀ x, GossipCounted cfg (purgeStaleState s bank).tracker x := by
  constructor
  · intro x h
    unfold votersAt stakeTrackerAt
    rw [slotTracker_purge]
    split_ifs
    · exact hcounted x h
    · rfl
  · intro x
    unfold GossipCounted Marked
    rw [slotTracker_purge]
    split_ifs
    · exact hgossip x
    · exact ⟨∅, by simp [SlotVoteTracker.default], rfl⟩

def stepVoters (cfg : ListenerConfig) (slot : Slot) (hash : Hash) : ListenerStep → Finset Pubkey
  | .votes bank gossipVotes replayedVotes =>
    countingVoters cfg bank slot hash (gossipVotes ++ replayedVotes)
  | .purge _ => ∅

/-- The accounts that had a vote that counts for a block in one of the steps. -/
def votersOf (cfg : ListenerConfig) (slot : Slot) (hash : Hash) (steps : List ListenerStep) :
    Finset Pubkey :=
  steps.foldl (fun voters step => voters ∪ stepVoters cfg slot hash step) ∅

/-- In one of the steps a vote of the account for the slot came from gossip, and the slot was
not before the latest one that the account had voted for by then. -/
def SeenOnGossip (cfg : ListenerConfig) (slot : Slot) (a : Pubkey) (steps : List ListenerStep) :
    Prop :=
  ∃ n bank gossipVotes replayedVotes, steps[n]? = some (.votes bank gossipVotes replayedVotes) ∧
    SeenInCall cfg bank (runListener cfg (steps.take n)) gossipVotes slot a

lemma stepVoters_eq_empty {step : ListenerStep} {slot : Slot} {hash : Hash}
    (h : slot ≤ step.bank.slot) : stepVoters cfg slot hash step = ∅ := by
  cases step with
  | purge bank => rfl
  | votes bank gossipVotes replayedVotes =>
    have hnone : ∀ v, ¬ CountsFor cfg bank slot hash v := fun v hv =>
      absurd hv.2.2.1 (Nat.not_lt.2 h)
    simp [stepVoters, countingVoters, hnone]

lemma votersOf_concat (slot : Slot) (hash : Hash) (steps : List ListenerStep) (step : ListenerStep) :
    votersOf cfg slot hash (steps ++ [step]) =
      votersOf cfg slot hash steps ∪ stepVoters cfg slot hash step := by
  rw [votersOf, foldl_append]
  rfl

lemma seenOnGossip_concat (slot : Slot) (a : Pubkey) (steps : List ListenerStep)
    (step : ListenerStep) :
    SeenOnGossip cfg slot a (steps ++ [step]) ↔ SeenOnGossip cfg slot a steps ∨
      ∃ bank gossipVotes replayedVotes, step = .votes bank gossipVotes replayedVotes ∧
        SeenInCall cfg bank (runListener cfg steps) gossipVotes slot a := by
  have hsteps : ∀ steps, SeenOnGossip cfg slot a steps ↔ ∃ n step, steps[n]? = some step ∧
      ∃ bank gossipVotes replayedVotes, step = .votes bank gossipVotes replayedVotes ∧
        SeenInCall cfg bank (runListener cfg (steps.take n)) gossipVotes slot a := by
    intro steps
    constructor
    · rintro ⟨n, bank, gossipVotes, replayedVotes, hn, hseen⟩
      exact ⟨n, _, hn, bank, gossipVotes, replayedVotes, rfl, hseen⟩
    · rintro ⟨n, _, hn, bank, gossipVotes, replayedVotes, rfl, hseen⟩
      exact ⟨n, bank, gossipVotes, replayedVotes, hn, hseen⟩
  rw [hsteps, hsteps, exists_getElem?_concat (P := fun before step => ∃ bank gossipVotes replayedVotes,
    step = .votes bank gossipVotes replayedVotes ∧
      SeenInCall cfg bank (runListener cfg before) gossipVotes slot a)]

lemma runListener_concat (steps : List ListenerStep) (step : ListenerStep) :
    runListener cfg (steps ++ [step]) = (step.run cfg (runListener cfg steps)).1 := by
  rw [runListener, foldl_append]
  rfl

variable (cfg) in
lemma runConfirmations_concat (s : ListenerState) (steps : List ListenerStep) (step : ListenerStep) :
    runConfirmations cfg s (steps ++ [step]) = runConfirmations cfg s steps ++
      [(step.run cfg (steps.foldl (fun s step => (step.run cfg s).1) s)).2] := by
  induction steps generalizing s with
  | nil => rfl
  | cons first steps ih =>
    exact congrArg (_ :: ·) (ih _)

/-- What the state after a run says about the slots above its roots. -/
structure Listened (cfg : ListenerConfig) (steps : List ListenerStep) : Prop where
  counted : StakesCounted cfg (runListener cfg steps).tracker
  gossipCounted : ∀ x, GossipCounted cfg (runListener cfg steps).tracker x
  voters : ∀ x h, (∀ step ∈ steps, step.bank.slot < x) →
    votersAt (runListener cfg steps).tracker x h = votersOf cfg x h steps
  marked : ∀ x a, (∀ step ∈ steps, step.bank.slot < x) →
    (Marked (runListener cfg steps).tracker x a ↔ SeenOnGossip cfg x a steps)

lemma listened_nil : Listened cfg [] where
  counted x h := rfl
  gossipCounted x := ⟨∅, by simp [Marked, VoteTracker.slotTracker, runListener,
    ListenerState.initial, SlotVoteTracker.default], rfl⟩
  voters x h _ := rfl
  marked x a _ := by
    simp [Marked, VoteTracker.slotTracker, runListener, ListenerState.initial,
      SlotVoteTracker.default, SeenOnGossip]

lemma Listened.step (h : Listened cfg steps) (step : ListenerStep)
    (hroot : ∀ earlier ∈ steps, earlier.bank.slot ≤ step.bank.slot) :
    Listened cfg (steps ++ [step]) ∧ ∀ threshold x hash,
      (sentFor (step.run cfg (runListener cfg steps)).2 threshold).count (x, hash) =
        crossing (thresholdAt cfg threshold x) (stakeOf cfg x (votersOf cfg x hash steps))
          (stakeOf cfg x (votersOf cfg x hash (steps ++ [step]))) := by
  have habove : ∀ x, (∀ s ∈ steps ++ [step], s.bank.slot < x) → ∀ s ∈ steps, s.bank.slot < x :=
    fun x hx s hs => hx s (mem_append_left _ hs)
  cases step with
  | purge bank =>
    have hkept : ∀ x, (∀ s ∈ steps ++ [.purge bank], s.bank.slot < x) →
        VoteTracker.slotTracker (purgeStaleState (runListener cfg steps) bank).tracker x =
          (runListener cfg steps).tracker.slotTracker x := fun x hx => by
      have hle : bank.slot ≤ x := Nat.le_of_lt (hx (.purge bank) (by simp))
      rw [slotTracker_purge, if_pos hle]
    obtain ⟨hcounted, hgossip⟩ := purge_counted h.counted h.gossipCounted bank
    refine ⟨⟨?_, ?_, fun x hash hx => ?_, fun x a hx => ?_⟩, fun threshold x hash => ?_⟩
    · exact runListener_concat steps _ ▸ hcounted
    · exact runListener_concat steps _ ▸ hgossip
    · rw [runListener_concat, votersOf_concat, ← h.voters x hash (habove x hx)]
      unfold votersAt stakeTrackerAt
      rw [ListenerStep.run, hkept x hx]
      exact (Finset.union_empty _).symm
    · rw [runListener_concat, seenOnGossip_concat, ← h.marked x a (habove x hx)]
      unfold Marked
      rw [ListenerStep.run, hkept x hx]
      simp
    · rw [votersOf_concat, stepVoters, Finset.union_empty, crossing_self]
      cases threshold <;> rfl
  | votes bank gossipVotes replayedVotes =>
    have hcall := filterAndConfirm_counted bank h.counted h.gossipCounted gossipVotes replayedVotes
    refine ⟨⟨?_, ?_, fun x hash hx => ?_, fun x a hx => ?_⟩, fun threshold x hash => ?_⟩
    · exact runListener_concat steps _ ▸ hcall.counted
    · exact runListener_concat steps _ ▸ hcall.gossipCounted
    · rw [runListener_concat, votersOf_concat, ← h.voters x hash (habove x hx)]
      exact hcall.voters_eq x hash
    · rw [runListener_concat, seenOnGossip_concat, ← h.marked x a (habove x hx)]
      refine (hcall.marked x a).trans (or_congr_right ?_)
      simp only [ListenerStep.votes.injEq]
      constructor
      · intro hseen
        exact ⟨bank, gossipVotes, replayedVotes, ⟨rfl, rfl, rfl⟩, hseen⟩
      · rintro ⟨_, _, _, ⟨rfl, rfl, rfl⟩, hseen⟩
        exact hseen
    · rw [votersOf_concat]
      by_cases hx : bank.slot < x
      · have hbefore := h.voters x hash fun s hs => lt_of_le_of_lt (hroot s hs) hx
        rw [← hbefore]
        have hvoters := hcall.voters_eq x hash
        rw [stepVoters, ← hvoters]
        exact hcall.sent threshold x hash
      · have hnone : stepVoters cfg x hash (.votes bank gossipVotes replayedVotes) = ∅ :=
          stepVoters_eq_empty (Nat.not_lt.1 hx)
        have hsame := hcall.voters_eq x hash
        have hempty : countingVoters cfg bank x hash (gossipVotes ++ replayedVotes) = ∅ := hnone
        rw [hempty, Finset.union_empty] at hsame
        have hsent := hcall.sent threshold x hash
        rw [hsame, crossing_self] at hsent
        rw [hnone, Finset.union_empty, crossing_self]
        exact hsent

lemma listened_run (hroots : steps.Pairwise (fun a b => a.bank.slot ≤ b.bank.slot)) :
    Listened cfg steps := by
  induction steps using List.reverseRecOn with
  | nil => exact listened_nil
  | append_singleton steps step ih =>
    obtain ⟨hsteps, -, hlast⟩ := pairwise_append.1 hroots
    exact ((ih hsteps).step step (fun s hs => hlast s hs step (by simp))).1

lemma length_runConfirmations (s : ListenerState) (steps : List ListenerStep) :
    (runConfirmations cfg s steps).length = steps.length := by
  induction steps generalizing s with
  | nil => rfl
  | cons step steps ih => exact congrArg (· + 1) (ih _)

lemma confirmations_at (hroots : steps.Pairwise (fun a b => a.bank.slot ≤ b.bank.slot)) {n : Nat}
    {c : Confirmations} (hc : (runConfirmations cfg .initial steps)[n]? = some c)
    (threshold : ConfirmationThreshold) (x : Slot) (hash : Hash) :
    (sentFor c threshold).count (x, hash) = crossing (thresholdAt cfg threshold x)
      (stakeOf cfg x (votersOf cfg x hash (steps.take n)))
      (stakeOf cfg x (votersOf cfg x hash (steps.take (n + 1)))) := by
  induction steps using List.reverseRecOn with
  | nil => cases hc
  | append_singleton steps step ih =>
    obtain ⟨hsteps, -, hlast⟩ := pairwise_append.1 hroots
    have hlen : (runConfirmations cfg .initial steps).length = steps.length :=
      length_runConfirmations _ _
    rw [runConfirmations_concat] at hc
    rcases getElem?_concat_eq_some.1 hc with hc | ⟨rfl, rfl⟩
    · have hlt := hlen ▸ (List.getElem?_eq_some_iff.1 hc).1
      rw [take_append_of_le_length hlt.le, take_append_of_le_length hlt]
      exact ih hsteps hc
    · rw [hlen, take_left, take_of_length_le (by simp)]
      exact ((listened_run hsteps).step step (fun s hs => hlast s hs step (by simp))).2 threshold x hash

variable (cfg) in
lemma confirmations_total (hroots : steps.Pairwise (fun a b => a.bank.slot ≤ b.bank.slot))
    (threshold : ConfirmationThreshold) (x : Slot) (hash : Hash) :
    ((runConfirmations cfg .initial steps).flatMap (sentFor · threshold)).count (x, hash) =
      crossing (thresholdAt cfg threshold x) 0 (stakeOf cfg x (votersOf cfg x hash steps)) := by
  induction steps using List.reverseRecOn with
  | nil => exact (crossing_self _ 0).symm
  | append_singleton steps step ih =>
    obtain ⟨hsteps, -, hlast⟩ := pairwise_append.1 hroots
    have hsent := ((listened_run hsteps : Listened cfg steps).step step
      (fun s hs => hlast s hs step (by simp))).2 threshold x hash
    have hgrows : stakeOf cfg x (votersOf cfg x hash steps) ≤
        stakeOf cfg x (votersOf cfg x hash (steps ++ [step])) := by
      rw [votersOf_concat]
      exact stakeOf_mono Finset.subset_union_left
    rw [runConfirmations_concat, flatMap_append, count_append, ih hsteps, flatMap_singleton,
      ← crossing_add (Nat.zero_le _) hgrows]
    exact congrArg (_ + ·) hsent

/-- In every run in which the root does not go back, a block is confirmed once, in the call in
which the accounts that voted for it first exceed the threshold. Above the root the gossip-only
stake is that of the accounts marked as seen on gossip. -/
theorem votes_confirm_once (cfg : ListenerConfig) (steps : List ListenerStep)
    (hroots : steps.Pairwise (fun a b => a.bank.slot ≤ b.bank.slot)) :
    (∀ slot hash n c, (runConfirmations cfg .initial steps)[n]? = some c →
      c.newOptimisticConfirmedSlots.count (slot, hash) =
        (if stakeOf cfg slot (votersOf cfg slot hash (steps.take n)) ≤
            thresholdAt cfg .voteThresholdSize slot ∧
          thresholdAt cfg .voteThresholdSize slot <
            stakeOf cfg slot (votersOf cfg slot hash (steps.take (n + 1))) then 1 else 0) ∧
      c.duplicateConfirmedSlots.count (slot, hash) =
        (if stakeOf cfg slot (votersOf cfg slot hash (steps.take n)) ≤
            thresholdAt cfg .duplicateThreshold slot ∧
          thresholdAt cfg .duplicateThreshold slot <
            stakeOf cfg slot (votersOf cfg slot hash (steps.take (n + 1))) then 1 else 0)) ∧
    (∀ slot hash,
      ((runConfirmations cfg .initial steps).flatMap (·.newOptimisticConfirmedSlots)).count
          (slot, hash) =
        (if thresholdAt cfg .voteThresholdSize slot <
          stakeOf cfg slot (votersOf cfg slot hash steps) then 1 else 0) ∧
      ((runConfirmations cfg .initial steps).flatMap (·.duplicateConfirmedSlots)).count
          (slot, hash) =
        (if thresholdAt cfg .duplicateThreshold slot <
          stakeOf cfg slot (votersOf cfg slot hash steps) then 1 else 0)) ∧
    ∀ slot, (∀ step ∈ steps, step.bank.slot < slot) →
      (∃ accounts : Finset Pubkey, (∀ a, a ∈ accounts ↔
          ((runListener cfg steps).tracker.slotTracker slot).voted[a]? = some true) ∧
        ((runListener cfg steps).tracker.slotTracker slot).gossipOnlyStake =
          stakeOf cfg slot accounts) ∧
      ∀ a, ((runListener cfg steps).tracker.slotTracker slot).voted[a]? = some true ↔
        SeenOnGossip cfg slot a steps := by
  have hlistened : Listened cfg steps := listened_run hroots
  refine ⟨fun slot hash n c hc => ?_, fun slot hash => ?_,
    fun slot hslot => ⟨hlistened.gossipCounted slot, fun a => hlistened.marked slot a hslot⟩⟩
  · have hat := fun threshold => confirmations_at hroots hc threshold slot hash
    exact ⟨hat .voteThresholdSize, hat .duplicateThreshold⟩
  · have htotal := fun threshold => confirmations_total cfg hroots threshold slot hash
    simp only [crossing, Nat.zero_le, true_and] at htotal
    exact ⟨htotal .voteThresholdSize, htotal .duplicateThreshold⟩

/-- Three accounts, two of which exceed both thresholds. -/
def threeVoters : ListenerConfig where
  getEpoch _ := 0
  stakes _ := ⟨fun a => if a ≤ 3 then 40 else 0, 120⟩
  thresholdStake
    | .duplicateThreshold, _ => 62
    | .voteThresholdSize, _ => 80

/-- The third account's vote comes from replay, then again from gossip; the first one's is
repeated after the root has moved. -/
def repeatedVotes : List ListenerStep :=
  [.votes ⟨0, [0]⟩ [⟨1, [4, 5], 7⟩, ⟨2, [5], 7⟩] [⟨3, [5, 5], 7⟩], .purge ⟨1, [0]⟩,
    .votes ⟨1, [0]⟩ [⟨3, [5], 7⟩, ⟨1, [4, 5], 7⟩] []]

theorem repeatedVotes_confirm_once :
    ((runConfirmations threeVoters .initial repeatedVotes).flatMap
      (·.newOptimisticConfirmedSlots)).count (5, 7) = 1 ∧
    ((runListener threeVoters repeatedVotes).tracker.slotTracker 5).gossipOnlyStake = 120 := by
  have honce := votes_confirm_once threeVoters repeatedVotes (by decide)
  refine ⟨(honce.2.1 5 7).1.trans (by decide +kernel), by decide +kernel⟩

end Nuah.Proofs
