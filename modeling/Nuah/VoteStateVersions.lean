import Nuah.AuthorizedVoters
import Nuah.Lib.ExactCodecs

/-!
# Versions of the vote state

The accounts' vote states as bincode writes and reads them
(`sdk/program/src/vote/state/vote_state_versions.rs`). A codec has the pairs of the authorized
voters as they are written; reading inserts them into a map.
-/

namespace Nuah

open ByteStrings Codecs Codec

structure VoteState1_14_11 where
  nodePubkey : Pubkey
  authorizedWithdrawer : Pubkey
  commission : Nat
  votes : List Lockout
  rootSlot : Option Slot
  authorizedVoters : AuthorizedVoters
  priorVoters : CircBuf (Pubkey × Epoch × Epoch)
  epochCredits : List (Epoch × Nat × Nat)
  lastTimestamp : BlockTimestamp
deriving Repr, DecidableEq

/-- The ring of the first version does not say whether it is empty. -/
structure VoteState0_23_5 where
  nodePubkey : Pubkey
  authorizedVoter : Pubkey
  authorizedVoterEpoch : Epoch
  priorVoters : List (Pubkey × Epoch × Epoch × Slot) × Nat
  authorizedWithdrawer : Pubkey
  commission : Nat
  votes : List Lockout
  rootSlot : Option Slot
  epochCredits : List (Epoch × Nat × Nat)
  lastTimestamp : BlockTimestamp
deriving Repr, DecidableEq

inductive VoteStateVersions where
  | v0_23_5 (state : VoteState0_23_5)
  | v1_14_11 (state : VoteState1_14_11)
  | current (state : VoteState)
deriving Repr, DecidableEq

namespace VoteStateVersions

def landedVotesFromLockouts (lockouts : List Lockout) : List LandedVote :=
  lockouts.map LandedVote.fromLockout

def convertToCurrent : VoteStateVersions → VoteState
  | .v0_23_5 state =>
    { nodePubkey := state.nodePubkey
      authorizedWithdrawer := state.authorizedWithdrawer
      commission := state.commission
      votes := landedVotesFromLockouts state.votes
      rootSlot := state.rootSlot
      authorizedVoters := [(state.authorizedVoterEpoch, state.authorizedVoter)]
      priorVoters := CircBuf.default _
      epochCredits := state.epochCredits
      lastTimestamp := state.lastTimestamp }
  | .v1_14_11 state =>
    { nodePubkey := state.nodePubkey
      authorizedWithdrawer := state.authorizedWithdrawer
      commission := state.commission
      votes := landedVotesFromLockouts state.votes
      rootSlot := state.rootSlot
      authorizedVoters := state.authorizedVoters
      priorVoters := state.priorVoters
      epochCredits := state.epochCredits
      lastTimestamp := state.lastTimestamp }
  | .current state => state

end VoteStateVersions

namespace VoteCodecs

def u64 : Codec Nat := word 8

def pubkey : Codec Pubkey := bigEndian 32

/-- `Vec`, `VecDeque` and `BTreeMap`. -/
def vec {α : Type} (c : Codec α) : Codec (List α) := counted u64 c

def lockout : Codec Lockout :=
  (u64.pair (word 4)).map (fun (slot, confirmationCount) => ⟨slot, confirmationCount⟩)
    (fun lockout => (lockout.slot, lockout.confirmationCount)) (fun _ => rfl)

def landedVote : Codec LandedVote :=
  ((word 1).pair lockout).map (fun (latency, lockout) => ⟨latency, lockout⟩)
    (fun vote => (vote.latency, vote.lockout)) (fun _ => rfl)

def priorVoter : Codec (Pubkey × Epoch × Epoch) := pubkey.pair (u64.pair u64)

def priorVoters : Codec (CircBuf (Pubkey × Epoch × Epoch)) :=
  ((replicated maxItems priorVoter).pair (u64.pair bool)).map
    (fun (buf, idx, isEmpty) => ⟨buf, idx, isEmpty⟩)
    (fun c => (c.buf, c.idx, c.isEmpty)) (fun _ => rfl)

def epochCredits : Codec (List (Epoch × Nat × Nat)) := vec (u64.pair (u64.pair u64))

def blockTimestamp : Codec BlockTimestamp :=
  (u64.pair (signedWord 8)).map (fun (slot, timestamp) => ⟨slot, timestamp⟩)
    (fun t => (t.slot, t.timestamp)) (fun _ => rfl)

def rootFields : Codec (Option Slot × AuthorizedVoters × CircBuf (Pubkey × Epoch × Epoch) ×
    List (Epoch × Nat × Nat) × BlockTimestamp) :=
  u64.option.pair ((vec (u64.pair pubkey)).pair (priorVoters.pair (epochCredits.pair blockTimestamp)))

/-- The fields that the later versions have in common, with votes of either kind. -/
abbrev Fields (ν : Type) :=
  Pubkey × Pubkey × Nat × List ν × Option Slot × AuthorizedVoters ×
    CircBuf (Pubkey × Epoch × Epoch) × List (Epoch × Nat × Nat) × BlockTimestamp

def fields {ν : Type} (vote : Codec ν) : Codec (Fields ν) :=
  pubkey.pair (pubkey.pair ((word 1).pair ((vec vote).pair rootFields)))

def voteState1_14_11 : Codec VoteState1_14_11 :=
  (fields lockout).map
    (fun (node, withdrawer, commission, votes, root, voters, prior, credits, timestamp) =>
      ⟨node, withdrawer, commission, votes, root, voters, prior, credits, timestamp⟩)
    (fun s => (s.nodePubkey, s.authorizedWithdrawer, s.commission, s.votes, s.rootSlot,
      s.authorizedVoters, s.priorVoters, s.epochCredits, s.lastTimestamp))
    (fun _ => rfl)

def voteState : Codec VoteState :=
  (fields landedVote).map
    (fun (node, withdrawer, commission, votes, root, voters, prior, credits, timestamp) =>
      ⟨node, withdrawer, commission, votes, root, voters, prior, credits, timestamp⟩)
    (fun s => (s.nodePubkey, s.authorizedWithdrawer, s.commission, s.votes, s.rootSlot,
      s.authorizedVoters, s.priorVoters, s.epochCredits, s.lastTimestamp))
    (fun _ => rfl)

def voteState0_23_5 : Codec VoteState0_23_5 :=
  (pubkey.pair (pubkey.pair (u64.pair
      (((replicated maxItems (pubkey.pair (u64.pair (u64.pair u64)))).pair u64).pair
        (pubkey.pair ((word 1).pair ((vec lockout).pair
          (u64.option.pair (epochCredits.pair blockTimestamp))))))))).map
    (fun (node, voter, epoch, prior, withdrawer, commission, votes, root, credits, timestamp) =>
      ⟨node, voter, epoch, prior, withdrawer, commission, votes, root, credits, timestamp⟩)
    (fun s => (s.nodePubkey, s.authorizedVoter, s.authorizedVoterEpoch, s.priorVoters,
      s.authorizedWithdrawer, s.commission, s.votes, s.rootSlot, s.epochCredits, s.lastTimestamp))
    (fun _ => rfl)

end VoteCodecs

/-- A `BTreeMap` of the pairs in the order in which they come. -/
def AuthorizedVoters.collect (pairs : AuthorizedVoters) : AuthorizedVoters :=
  pairs.foldl (fun voters (epoch, pubkey) => KeyedLists.insert epoch pubkey voters) []

namespace VoteStateVersions

/-- `bincode::deserialize`, with the bytes that are left over. -/
def deserialize (input : ByteString) : Option (VoteStateVersions × ByteString) := do
  let (variant, input) ← (word 4).read input
  match variant with
  | 0 => do
    let (state, rest) ← VoteCodecs.voteState0_23_5.read input
    some (.v0_23_5 state, rest)
  | 1 => do
    let (state, rest) ← VoteCodecs.voteState1_14_11.read input
    some (.v1_14_11 { state with
      authorizedVoters := AuthorizedVoters.collect state.authorizedVoters }, rest)
  | 2 => do
    let (state, rest) ← VoteCodecs.voteState.read input
    some (.current { state with
      authorizedVoters := AuthorizedVoters.collect state.authorizedVoters }, rest)
  | _ => none

/-- `bincode::serialize`. -/
def serialize : VoteStateVersions → Option ByteString
  | .v0_23_5 state => (VoteCodecs.voteState0_23_5.write state).map (leBytes 4 0 ++ ·)
  | .v1_14_11 state => (VoteCodecs.voteState1_14_11.write state).map (leBytes 4 1 ++ ·)
  | .current state => (VoteCodecs.voteState.write state).map (leBytes 4 2 ++ ·)

end VoteStateVersions

end Nuah
