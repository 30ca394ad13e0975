import Nuah.Primitives

/-!
# Vote state

The tower of a vote account (`sdk/program/src/vote/state/mod.rs`): lockouts, landed votes
and the iterative update `process_next_vote_slot`. Votes are listed from the oldest
(front) to the newest (back).
-/

namespace Nuah

def maxLockoutHistory : Nat := 31
def initialLockout : Nat := 2
def maxEpochCreditsHistory : Nat := 64
def voteCreditsGraceSlots : Nat := 2
def voteCreditsMaximumPerSlot : Nat := 16
def voteCreditsMaximumPerSlotOld : Nat := 8
def maxItems : Nat := 32

structure Vote where
  slots : List Slot
  hash : Hash
  timestamp : Option UnixTimestamp
deriving Repr, DecidableEq

def Vote.new (slots : List Slot) (hash : Hash) : Vote := ⟨slots, hash, none⟩

structure Lockout where
  slot : Slot
  confirmationCount : Nat
deriving Repr, DecidableEq

namespace Lockout

def newWithConfirmationCount (slot : Slot) (confirmationCount : Nat) : Lockout :=
  ⟨slot, confirmationCount⟩

def new (slot : Slot) : Lockout := newWithConfirmationCount slot 1

/-- The number of slots for which this vote is locked. The power is a `u64` power. -/
def lockout (l : Lockout) : Nat := initialLockout ^ l.confirmationCount % 2 ^ 64

def lastLockedOutSlot (l : Lockout) : Slot := saturatingAddU64 l.slot l.lockout

def isLockedOutAtSlot (l : Lockout) (slot : Slot) : Bool := decide (slot ≤ l.lastLockedOutSlot)

def increaseConfirmationCount (l : Lockout) (amount : Nat) : Lockout :=
  { l with confirmationCount := saturatingAddU32 l.confirmationCount amount }

end Lockout

structure LandedVote where
  latency : Nat
  lockout : Lockout
deriving Repr, DecidableEq

namespace LandedVote

def slot (v : LandedVote) : Slot := v.lockout.slot

def confirmationCount (v : LandedVote) : Nat := v.lockout.confirmationCount

def fromLockout (lockout : Lockout) : LandedVote := ⟨0, lockout⟩

end LandedVote

structure VoteStateUpdate where
  lockouts : List Lockout
  root : Option Slot
  hash : Hash
  timestamp : Option UnixTimestamp
deriving Repr, DecidableEq

def VoteStateUpdate.new (lockouts : List Lockout) (root : Option Slot) (hash : Hash) :
    VoteStateUpdate :=
  ⟨lockouts, root, hash, none⟩

structure VoteInit where
  nodePubkey : Pubkey
  authorizedVoter : Pubkey
  authorizedWithdrawer : Pubkey
  commission : Nat
deriving Repr, DecidableEq

structure BlockTimestamp where
  slot : Slot
  timestamp : UnixTimestamp
deriving Repr, DecidableEq

structure CircBuf (ι : Type) where
  buf : List ι
  idx : Nat
  isEmpty : Bool
deriving Repr, DecidableEq

def CircBuf.default (ι : Type) [Inhabited ι] : CircBuf ι :=
  ⟨List.replicate maxItems Inhabited.default, maxItems - 1, true⟩

/-- A vote account's state. `authorizedVoters` lists a `BTreeMap` in key order. -/
structure VoteState where
  nodePubkey : Pubkey
  authorizedWithdrawer : Pubkey
  commission : Nat
  votes : List LandedVote
  rootSlot : Option Slot
  authorizedVoters : List (Epoch × Pubkey)
  priorVoters : CircBuf (Pubkey × Epoch × Epoch)
  epochCredits : List (Epoch × Nat × Nat)
  lastTimestamp : BlockTimestamp
deriving Repr, DecidableEq

namespace VoteState

def default : VoteState where
  nodePubkey := 0
  authorizedWithdrawer := 0
  commission := 0
  votes := []
  rootSlot := none
  authorizedVoters := []
  priorVoters := CircBuf.default _
  epochCredits := []
  lastTimestamp := ⟨0, 0⟩

def new (voteInit : VoteInit) (clockEpoch : Epoch) : VoteState :=
  { default with
    nodePubkey := voteInit.nodePubkey
    authorizedVoters := [(clockEpoch, voteInit.authorizedVoter)]
    authorizedWithdrawer := voteInit.authorizedWithdrawer
    commission := voteInit.commission }

def lastLockout (vs : VoteState) : Option Lockout := vs.votes.getLast?.map LandedVote.lockout

def lastVotedSlot (vs : VoteState) : Option Slot := vs.lastLockout.map Lockout.slot

def currentEpoch (vs : VoteState) : Epoch :=
  match vs.epochCredits.getLast? with
  | none => 0
  | some (epoch, _, _) => epoch

/-- Binary search of a vote slot between the positions `lo` and `hi`. -/
def binarySearchSlot (votes : List LandedVote) (candidateSlot : Slot) : Nat → Nat → Nat → Bool
  | 0, _, _ => false
  | fuel + 1, lo, hi =>
    if lo < hi then
      let mid := lo + (hi - lo) / 2
      match votes[mid]? with
      | none => false
      | some vote =>
        match compare vote.slot candidateSlot with
        | .eq => true
        | .lt => binarySearchSlot votes candidateSlot fuel (mid + 1) hi
        | .gt => binarySearchSlot votes candidateSlot fuel lo mid
    else false

def containsSlot (vs : VoteState) (candidateSlot : Slot) : Bool :=
  binarySearchSlot vs.votes candidateSlot vs.votes.length 0 vs.votes.length

def popExpiredVotes (vs : VoteState) (nextVoteSlot : Slot) : VoteState :=
  { vs with
    votes := vs.votes.rdropWhile (fun vote => !vote.lockout.isLockedOutAtSlot nextVoteSlot) }

/-- The lockout of a vote doubles when the stack above it is deeper than the number of
confirmations that the vote has seen. -/
def doubleLockout (stackDepth i : Nat) (v : LandedVote) : LandedVote :=
  if i + v.confirmationCount < stackDepth then
    { v with lockout := v.lockout.increaseConfirmationCount 1 }
  else v

def doubleLockouts (vs : VoteState) : VoteState :=
  { vs with votes := vs.votes.mapIdx (doubleLockout vs.votes.length) }

def computeVoteLatency (votedForSlot currentSlot : Slot) : Nat :=
  min (currentSlot - votedForSlot) u8Max

def creditsForVoteAtIndex (vs : VoteState) (index : Nat)
    (timelyVoteCredits deprecateUnusedLegacyVotePlumbing : Bool) : Nat :=
  let latency := (vs.votes[index]?.map LandedVote.latency).getD 0
  let maxCredits := if deprecateUnusedLegacyVotePlumbing then voteCreditsMaximumPerSlot
    else voteCreditsMaximumPerSlotOld
  if latency = 0 || (deprecateUnusedLegacyVotePlumbing && !timelyVoteCredits) then 1
  else match checkedSub latency voteCreditsGraceSlots with
    | none => maxCredits
    | some 0 => maxCredits
    | some diff =>
      match checkedSub maxCredits diff with
      | none => 1
      | some 0 => 1
      | some credits => credits

def credits (vs : VoteState) : Nat :=
  match vs.epochCredits.getLast? with
  | none => 0
  | some (_, credits, _) => credits

/-- The voter's and the staker's part of a reward, and whether it was divided at all. The
parts are rounded down independently of each other. -/
def commissionSplit (vs : VoteState) (on : Nat) : Nat × Nat × Bool :=
  let commission := min vs.commission 100
  if commission = 0 then (0, on, false)
  else if commission = 100 then (on, 0, false)
  else (on * commission / 100, on * (100 - commission) / 100, true)

/-- The history after a new epoch was seen: an epoch in which credits were earned is kept
and a new entry appended, any other is renamed to the new epoch. -/
def rollEpochCredits (epochCredits : List (Epoch × Nat × Nat)) (epoch : Epoch) :
    List (Epoch × Nat × Nat) :=
  match epochCredits.getLast? with
  | none => [(epoch, 0, 0)]
  | some (lastEpoch, credits, prevCredits) =>
    if epoch ≠ lastEpoch then
      let rolled :=
        if credits ≠ prevCredits then epochCredits ++ [(epoch, credits, credits)]
        else epochCredits.dropLast ++ [(epoch, credits, prevCredits)]
      if maxEpochCreditsHistory < rolled.length then rolled.drop 1 else rolled
    else epochCredits

def incrementCredits (vs : VoteState) (epoch : Epoch) (credits : Nat) : VoteState :=
  let rolled := rollEpochCredits vs.epochCredits epoch
  match rolled.getLast? with
  | none => vs
  | some (lastEpoch, lastCredits, prevCredits) =>
    { vs with
      epochCredits :=
        rolled.dropLast ++ [(lastEpoch, saturatingAddU64 lastCredits credits, prevCredits)] }

/-- Once the stack is full, the oldest lockout becomes the root and earns its credits. -/
def popOldestVote (vs : VoteState) (epoch : Epoch)
    (timelyVoteCredits deprecateUnusedLegacyVotePlumbing : Bool) : VoteState :=
  match vs.votes with
  | [] => vs
  | oldest :: rest =>
    if vs.votes.length = maxLockoutHistory then
      incrementCredits { vs with votes := rest, rootSlot := some oldest.slot } epoch
        (vs.creditsForVoteAtIndex 0 timelyVoteCredits deprecateUnusedLegacyVotePlumbing)
    else vs

def processNextVoteSlot (vs : VoteState) (nextVoteSlot : Slot) (epoch : Epoch)
    (currentSlot : Slot) (timelyVoteCredits deprecateUnusedLegacyVotePlumbing : Bool) :
    VoteState :=
  -- Ignore votes for slots earlier than we already have votes for
  if vs.lastVotedSlot.any (fun last => decide (nextVoteSlot ≤ last)) then vs
  else
    let popped := vs.popExpiredVotes nextVoteSlot
    let landedVote : LandedVote :=
      { latency := if timelyVoteCredits || !deprecateUnusedLegacyVotePlumbing
          then computeVoteLatency nextVoteSlot currentSlot else 0
        lockout := Lockout.new nextVoteSlot }
    let rooted := popped.popOldestVote epoch timelyVoteCredits deprecateUnusedLegacyVotePlumbing
    doubleLockouts { rooted with votes := rooted.votes ++ [landedVote] }

/-- `none` stands for `VoteError::TimestampTooOld`. -/
def processTimestamp (vs : VoteState) (slot : Slot) (timestamp : UnixTimestamp) :
    Option VoteState :=
  if (slot < vs.lastTimestamp.slot || timestamp < vs.lastTimestamp.timestamp) ||
      (slot = vs.lastTimestamp.slot && (⟨slot, timestamp⟩ : BlockTimestamp) ≠ vs.lastTimestamp &&
        vs.lastTimestamp.slot ≠ 0) then none
  else some { vs with lastTimestamp := ⟨slot, timestamp⟩ }

end VoteState

end Nuah
