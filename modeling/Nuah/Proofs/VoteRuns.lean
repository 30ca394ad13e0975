import Nuah.Proofs.VoteStateUpdates

/-!
# Runs of a vote account

Legacy votes and vote state updates in any order, from a new vote account on.
-/

namespace Nuah.Proofs
open VoteState

/-- One successful call, with any contents and any slot hashes. -/
inductive VoteStep : VoteState → VoteState → Prop
  | vote {vs vs' : VoteState} (vote : Vote) (slotHashes : SlotHashes) (epoch : Epoch)
      (currentSlot : Slot) (timely legacy : Bool)
      (hok : processVote vs vote slotHashes epoch currentSlot timely legacy = .ok vs') :
      VoteStep vs vs'
  | voteStateUpdate {vs vs' : VoteState} (update : VoteStateUpdate) (slotHashes : SlotHashes)
      (epoch : Epoch) (slot : Slot) (featureSet : Option FeatureSet)
      (hok : doProcessVoteStateUpdate vs slotHashes epoch slot update featureSet = .ok vs') :
      VoteStep vs vs'

abbrev VoteRun := Relation.ReflTransGen VoteStep

lemma VoteStep.progress {vs vs' : VoteState} (h : AccountTower vs) (hstep : VoteStep vs vs') :
    TowerProgress vs vs' ∧
      ∃ m, vs'.lastVotedSlot = some m ∧ ∀ last, vs.lastVotedSlot = some last → last < m := by
  cases hstep with
  | vote vote slotHashes epoch currentSlot timely legacy hok => exact processVote_progress h hok
  | voteStateUpdate update slotHashes epoch slot featureSet hok =>
    exact doProcessVoteStateUpdate_progress hok

lemma voteRun_progress {vs vs' : VoteState} (h : AccountTower vs) (hrun : VoteRun vs vs') :
    TowerProgress vs vs' := by
  induction hrun with
  | refl => exact TowerProgress.refl h
  | tail _ hstep ih => exact ih.trans (hstep.progress ih.tower).1

/-- Every reached vote account has a valid tower; from there on the root never moves back
and each further call raises the last voted slot. -/
theorem voteRun_tower (voteInit : VoteInit) (clockEpoch : Epoch) (vs : VoteState)
    (hrun : VoteRun (new voteInit clockEpoch) vs) :
    TowerInvariant vs ∧
      (∀ vs', VoteRun vs vs' → RootLe vs.rootSlot vs'.rootSlot) ∧
      (∀ vs', VoteStep vs vs' →
        ∃ m, vs'.lastVotedSlot = some m ∧ ∀ last, vs.lastVotedSlot = some last → last < m) := by
  have htower : AccountTower vs := (voteRun_progress (accountTower_new voteInit clockEpoch) hrun).tower
  refine ⟨htower.toTowerInvariant, ?_, ?_⟩
  · intro vs' hrun'
    exact (voteRun_progress htower hrun').root_le
  · intro vs' hstep
    exact (hstep.progress htower).2

theorem voteRun_tower_vote_then_update :
    ∃ vs, VoteRun (new ⟨1, 2, 3, 0⟩ 0) vs ∧ vs.votes.length = 2 ∧ TowerInvariant vs := by
  let afterVote := { new ⟨1, 2, 3, 0⟩ 0 with votes := [⟨1, ⟨4, 1⟩⟩] }
  let afterUpdate :=
    { new ⟨1, 2, 3, 0⟩ 0 with
      votes := [⟨1, ⟨4, 2⟩⟩, ⟨0, ⟨6, 1⟩⟩], rootSlot := some 3, epochCredits := [(0, 1, 0)] }
  have hvote : VoteStep (new ⟨1, 2, 3, 0⟩ 0) afterVote :=
    .vote (Vote.new [4] 8) [(4, 8), (3, 7)] 0 5 true true (by decide)
  have hupdate : VoteStep afterVote afterUpdate :=
    .voteStateUpdate (VoteStateUpdate.new [⟨4, 2⟩, ⟨6, 1⟩] (some 3) 9) [(6, 9), (4, 8), (3, 7)] 0 7 none
      (by decide)
  have hrun : VoteRun (new ⟨1, 2, 3, 0⟩ 0) afterUpdate := .tail (.single hvote) hupdate
  exact ⟨afterUpdate, hrun, rfl, (voteRun_tower _ _ _ hrun).1⟩

end Nuah.Proofs
