import Nuah.VoteProgram

/-!
# The local tower

A validator's own tower (`core/src/consensus.rs`): whether a slot may be voted on, and how a
vote is recorded.
-/

namespace Nuah

structure Tower where
  nodePubkey : Pubkey
  voteState : VoteState
  lastVote : VoteStateUpdate
  lastTimestamp : BlockTimestamp
deriving Repr, DecidableEq

namespace Tower

/-- The root is always set in a tower, unlike in a young vote account. -/
def default : Tower where
  nodePubkey := 0
  voteState := { VoteState.default with rootSlot := some 0 }
  lastVote := ⟨[], none, 0, none⟩
  lastTimestamp := ⟨0, 0⟩

def root (t : Tower) : VoteResult Slot :=
  match t.voteState.rootSlot with
  | some root => .ok root
  | none => .error .panic

def lastVotedSlot (t : Tower) : Option Slot := t.lastVote.lockouts.getLast?.map Lockout.slot

/-- `now` is the wall clock. -/
def maybeTimestamp (t : Tower) (currentSlot : Slot) (now : UnixTimestamp) :
    Tower × Option UnixTimestamp :=
  if t.lastTimestamp.slot < currentSlot ||
      (t.lastTimestamp.slot = 0 && currentSlot = t.lastTimestamp.slot) then
    if t.lastTimestamp.timestamp ≤ now then
      ({ t with lastTimestamp := ⟨currentSlot, now⟩ }, some now)
    else (t, none)
  else (t, none)

/-- The timestamp is taken for the slot of the vote before this one. -/
def updateLastVoteFromVoteState (t : Tower) (voteHash : Hash) (now : UnixTimestamp) : Tower :=
  let newVote := VoteStateUpdate.new (t.voteState.votes.map LandedVote.lockout)
    t.voteState.rootSlot voteHash
  let (t', timestamp) := t.maybeTimestamp (t.lastVotedSlot.getD 0) now
  { t' with lastVote := { newVote with timestamp := timestamp } }

def recordBankVoteAndUpdateLockouts (t : Tower) (voteSlot : Slot) (voteHash : Hash)
    (now : UnixTimestamp) : VoteResult (Tower × Option Slot) := do
  let oldRoot ← t.root
  match processVoteUnchecked t.voteState (Vote.new [voteSlot] voteHash) with
  | .error _ => .error .panic
  | .ok voteState =>
    let recorded := updateLastVoteFromVoteState { t with voteState := voteState } voteHash now
    let newRoot ← recorded.root
    .ok (recorded, if oldRoot ≠ newRoot then some newRoot else none)

/-- A slot is recent if it is newer than the last vote, or than the root without a vote. -/
def isRecent (t : Tower) (slot : Slot) : Bool :=
  match t.voteState.lastVotedSlot with
  | some lastVotedSlot => !decide (slot ≤ lastVotedSlot)
  | none => match t.voteState.rootSlot with
    | some root => !decide (slot ≤ root)
    | none => true

/-- Simulates the vote: whatever stays in the tower must be an ancestor of the slot. -/
def isLockedOut (t : Tower) (slot : Slot) (ancestors : Finset Slot) : VoteResult Bool :=
  if !t.isRecent slot then .ok true
  else
    let voteState := processSlotVoteUnchecked t.voteState slot
    if voteState.votes.any (fun vote => decide (slot ≠ vote.slot) && decide (vote.slot ∉ ancestors)) then
      .ok true
    else
      match voteState.rootSlot with
      | some rootSlot =>
        if slot ≠ rootSlot then do
          assertOrPanic (decide (rootSlot ∈ ancestors))
          .ok false
        else .ok false
      | none => .ok false

end Tower

end Nuah
