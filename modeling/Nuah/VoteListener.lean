import Nuah.Primitives

/-!
# The vote listener

How votes from gossip and from replay are counted towards optimistic confirmation
(`core/src/cluster_info_vote_listener.rs`, `core/src/consensus/vote_stake_tracker.rs`). What a
threshold of the total stake comes to is a parameter.
-/

namespace Nuah

open Std (TreeMap)

structure VoteStakeTracker where
  voted : Finset Pubkey
  stake : Nat

namespace VoteStakeTracker

def default : VoteStakeTracker := ⟨∅, 0⟩

/-- Which of the thresholds the vote has just exceeded, and whether it is new. -/
def addVotePubkey (t : VoteStakeTracker) (votePubkey : Pubkey) (stake : Nat)
    (thresholdStakes : List Nat) : VoteStakeTracker × List Bool × Bool :=
  if votePubkey ∉ t.voted then
    let newStake := t.stake + stake
    (⟨insert votePubkey t.voted, newStake⟩,
      thresholdStakes.map (fun threshold => decide (t.stake ≤ threshold ∧ threshold < newStake)), true)
  else (t, thresholdStakes.map (fun _ => false), false)

end VoteStakeTracker

structure SlotVoteTracker where
  /-- Whether the vote of an account that has voted for the slot was seen on gossip. -/
  voted : TreeMap Pubkey Bool
  optimisticVotesTracker : TreeMap Hash VoteStakeTracker
  votedSlotUpdates : Option (List Pubkey)
  gossipOnlyStake : Nat

def SlotVoteTracker.default : SlotVoteTracker := ⟨∅, ∅, none, 0⟩

abbrev VoteTracker := TreeMap Slot SlotVoteTracker

def VoteTracker.slotTracker (tracker : VoteTracker) (slot : Slot) : SlotVoteTracker :=
  tracker[slot]?.getD .default

structure EpochStakes where
  delegatedStake : Pubkey → Nat
  totalStake : Nat

inductive ConfirmationThreshold where
  | duplicateThreshold
  | voteThresholdSize
deriving Repr, DecidableEq

/-- `THRESHOLDS_TO_CHECK`. -/
def thresholdsToCheck : List ConfirmationThreshold := [.duplicateThreshold, .voteThresholdSize]

structure ListenerConfig where
  getEpoch : Slot → Epoch
  stakes : Epoch → EpochStakes
  /-- What exceeding a threshold takes, by the total stake. -/
  thresholdStake : ConfirmationThreshold → Nat → Nat

/-- A root bank: its slot, and the epochs whose stakes it knows. -/
structure RootBank where
  slot : Slot
  knownEpochs : List Epoch
deriving Repr, DecidableEq

def RootBank.epochStakes (bank : RootBank) (cfg : ListenerConfig) (epoch : Epoch) :
    Option EpochStakes :=
  if epoch ∈ bank.knownEpochs then some (cfg.stakes epoch) else none

structure ParsedVote where
  votePubkey : Pubkey
  slots : List Slot
  hash : Hash
deriving Repr, DecidableEq

structure CallState where
  tracker : VoteTracker
  latestVoteSlotPerValidator : TreeMap Pubkey Slot
  diff : TreeMap Slot (TreeMap Pubkey Bool)
  newOptimisticConfirmedSlots : List (Slot × Hash)
  duplicateConfirmedSlots : List (Slot × Hash)
  gossipVerifiedVoteHashes : List (Pubkey × Slot × Hash)
  verifiedVotes : List (Pubkey × List Slot)

def trackOptimisticConfirmationVote (cfg : ListenerConfig) (tracker : VoteTracker) (slot : Slot)
    (hash : Hash) (pubkey : Pubkey) (stake totalEpochStake : Nat) :
    VoteTracker × List Bool × Bool :=
  let slotTracker := tracker.slotTracker slot
  let voteTracker := slotTracker.optimisticVotesTracker[hash]?.getD .default
  let (added, reached, isNew) := voteTracker.addVotePubkey pubkey stake
    (thresholdsToCheck.map fun threshold => cfg.thresholdStake threshold totalEpochStake)
  (tracker.insert slot { slotTracker with
    optimisticVotesTracker := slotTracker.optimisticVotesTracker.insert hash added }, reached, isNew)

/-- The part of a round of the loop that only the last slot of a vote takes: returns whether
the vote is new. -/
def trackLastSlot (cfg : ListenerConfig) (stakes : EpochStakes) (v : ParsedVote) (isGossip : Bool)
    (slot : Slot) (s : CallState) : CallState × Bool :=
  let stake := stakes.delegatedStake v.votePubkey
  let (tracker, reached, isNew) := trackOptimisticConfirmationVote cfg s.tracker slot v.hash
    v.votePubkey stake stakes.totalStake
  ({ s with
    tracker := tracker
    gossipVerifiedVoteHashes := if isGossip && isNew && decide (0 < stake) then
      s.gossipVerifiedVoteHashes ++ [(v.votePubkey, slot, v.hash)] else s.gossipVerifiedVoteHashes
    duplicateConfirmedSlots := if reached.getD 0 false then
      s.duplicateConfirmedSlots ++ [(slot, v.hash)] else s.duplicateConfirmedSlots
    newOptimisticConfirmedSlots := if reached.getD 1 false then
      s.newOptimisticConfirmedSlots ++ [(slot, v.hash)] else s.newOptimisticConfirmedSlots }, isNew)

def addToDiff (diff : TreeMap Slot (TreeMap Pubkey Bool)) (slot : Slot) (pubkey : Pubkey)
    (isGossip : Bool) : TreeMap Slot (TreeMap Pubkey Bool) :=
  let slotDiff := diff[slot]?.getD ∅
  diff.insert slot (slotDiff.insert pubkey (slotDiff[pubkey]?.getD false || isGossip))

/-- The loop over the slots of a vote: whether the vote is new, or nothing if the loop was
left early. -/
def trackSlots (cfg : ListenerConfig) (bank : RootBank) (v : ParsedVote) (isGossip : Bool)
    (lastVoteSlot latestVoteSlot : Slot) : List Slot → Bool → CallState → CallState × Option Bool
  | [], isNewVote, s => (s, some isNewVote)
  | slot :: slots, isNewVote, s =>
    match bank.epochStakes cfg (cfg.getEpoch slot) with
    | none => trackSlots cfg bank v isGossip lastVoteSlot latestVoteSlot slots isNewVote s
    | some stakes =>
      let (s, isNewVote, short) :=
        if slot = lastVoteSlot then
          let (s, isNew) := trackLastSlot cfg stakes v isGossip slot s
          (s, isNew, !isNew && !isGossip)
        else (s, isNewVote, false)
      if short then (s, none)
      else
        let s := if slot < latestVoteSlot then s
          else { s with diff := addToDiff s.diff slot v.votePubkey isGossip }
        trackSlots cfg bank v isGossip lastVoteSlot latestVoteSlot slots isNewVote s

def trackNewVotesAndNotifyConfirmations (cfg : ListenerConfig) (bank : RootBank) (isGossip : Bool)
    (s : CallState) (v : ParsedVote) : CallState :=
  match v.slots.getLast? with
  | none => s
  | some lastVoteSlot =>
    let latest := s.latestVoteSlotPerValidator[v.votePubkey]?.getD 0
    let voteSlots := (v.slots.filter fun slot => decide (bank.slot < slot)).reverse
    match trackSlots cfg bank v isGossip lastVoteSlot latest voteSlots false s with
    | (s, none) => { s with
        latestVoteSlotPerValidator := s.latestVoteSlotPerValidator.insert v.votePubkey latest }
    | (s, some isNewVote) => { s with
        latestVoteSlotPerValidator :=
          s.latestVoteSlotPerValidator.insert v.votePubkey (max latest lastVoteSlot)
        verifiedVotes := if isNewVote then s.verifiedVotes ++ [(v.votePubkey, v.slots)]
          else s.verifiedVotes }

def sumStake (epochStakes : Option EpochStakes) (pubkeys : List Pubkey) : Nat :=
  match epochStakes with
  | some stakes => (pubkeys.map stakes.delegatedStake).sum
  | none => 0

/-- Whether the vote of an account is new for the slot, or new on gossip. -/
def isNewForSlot (t : SlotVoteTracker) (p : Pubkey × Bool) : Bool :=
  t.voted[p.1]?.isNone || (!(t.voted[p.1]?.getD false) && p.2)

/-- What a call has gathered for a slot, taken over into its tracker. -/
def applySlotDiff (cfg : ListenerConfig) (bank : RootBank) (tracker : VoteTracker)
    (p : Slot × TreeMap Pubkey Bool) : VoteTracker :=
  let t := tracker.slotTracker p.1
  let kept := p.2.toList.filter (isNewForSlot t)
  let seen := (kept.filter fun q => q.2).map Prod.fst
  tracker.insert p.1 { t with
    voted := t.voted.insertMany kept
    votedSlotUpdates := some (t.votedSlotUpdates.getD [] ++ kept.map Prod.fst)
    gossipOnlyStake := t.gossipOnlyStake +
      sumStake (bank.epochStakes cfg (cfg.getEpoch p.1)) seen }

structure ListenerState where
  tracker : VoteTracker
  latestVoteSlotPerValidator : TreeMap Pubkey Slot

def ListenerState.initial : ListenerState := ⟨∅, ∅⟩

structure Confirmations where
  newOptimisticConfirmedSlots : List (Slot × Hash)
  duplicateConfirmedSlots : List (Slot × Hash)
  gossipVerifiedVoteHashes : List (Pubkey × Slot × Hash)
  verifiedVotes : List (Pubkey × List Slot)

def Confirmations.none : Confirmations := ⟨[], [], [], []⟩

def CallState.start (s : ListenerState) : CallState :=
  ⟨s.tracker, s.latestVoteSlotPerValidator, ∅, [], [], [], []⟩

/-- The votes of a call, those from gossip first. -/
def processVotes (cfg : ListenerConfig) (bank : RootBank) (s : ListenerState)
    (gossipVotes replayedVotes : List ParsedVote) : CallState :=
  replayedVotes.foldl (trackNewVotesAndNotifyConfirmations cfg bank false)
    (gossipVotes.foldl (trackNewVotesAndNotifyConfirmations cfg bank true) (.start s))

def filterAndConfirmWithNewVotes (cfg : ListenerConfig) (bank : RootBank) (s : ListenerState)
    (gossipVotes replayedVotes : List ParsedVote) : ListenerState × Confirmations :=
  let c := processVotes cfg bank s gossipVotes replayedVotes
  (⟨c.diff.toList.foldl (applySlotDiff cfg bank) c.tracker, c.latestVoteSlotPerValidator⟩,
    ⟨c.newOptimisticConfirmedSlots, c.duplicateConfirmedSlots, c.gossipVerifiedVoteHashes,
      c.verifiedVotes⟩)

def purgeStaleState (s : ListenerState) (bank : RootBank) : ListenerState :=
  { s with tracker := s.tracker.filter fun slot _ => decide (bank.slot ≤ slot) }

inductive ListenerStep where
  | votes (bank : RootBank) (gossipVotes replayedVotes : List ParsedVote)
  | purge (bank : RootBank)

def ListenerStep.bank : ListenerStep → RootBank
  | .votes bank _ _ => bank
  | .purge bank => bank

def ListenerStep.run (cfg : ListenerConfig) (s : ListenerState) :
    ListenerStep → ListenerState × Confirmations
  | .votes bank gossipVotes replayedVotes =>
    filterAndConfirmWithNewVotes cfg bank s gossipVotes replayedVotes
  | .purge bank => (purgeStaleState s bank, .none)

def runListener (cfg : ListenerConfig) (steps : List ListenerStep) : ListenerState :=
  steps.foldl (fun s step => (step.run cfg s).1) .initial

def runConfirmations (cfg : ListenerConfig) : ListenerState → List ListenerStep → List Confirmations
  | _, [] => []
  | s, step :: steps =>
    let (s', confirmations) := step.run cfg s
    confirmations :: runConfirmations cfg s' steps

end Nuah
