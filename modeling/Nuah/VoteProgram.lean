import Nuah.VoteState

/-!
# Vote program

How the vote program applies a vote transaction to a vote state
(`programs/vote/src/vote_state/mod.rs`): the legacy `Vote`, and the `VoteStateUpdate`, which
replaces the whole tower.
-/

namespace Nuah

inductive VoteError where
  | voteTooOld
  | slotsMismatch
  | slotHashMismatch
  | emptySlots
  | timestampTooOld
  | lockoutConflict
  | newVoteStateLockoutMismatch
  | slotsNotOrdered
  | confirmationsNotOrdered
  | zeroConfirmations
  | confirmationTooLarge
  | rootRollBack
  | confirmationRollBack
  | slotSmallerThanRoot
  | tooManyVotes
  | votesTooOldAllFiltered
  | rootOnDifferentFork
deriving Repr, DecidableEq

abbrev VoteResult := Except (Fault VoteError)

abbrev SlotHashes := List (Slot × Hash)

def failWith {α : Type} (e : VoteError) : VoteResult α := .error (.err e)

/-- The proposed root, replaced when it is too old to be in the slot hash history: by the
latest vote of the vote state that is not above it, else by the vote state's root. -/
def overwriteRoot (vs : VoteState) (earliestSlotHashInHistory : Slot) (root : Option Slot) :
    Option Slot :=
  match root with
  | none => none
  | some proposedRoot =>
    if proposedRoot < earliestSlotHashInHistory then
      match vs.votes.reverse.find? (fun vote => decide (vote.slot ≤ proposedRoot)) with
      | some vote => some vote.slot
      | none => vs.rootSlot
    else some proposedRoot

/-- The mutable locals of the loop in `check_update_vote_state_slots_are_valid`. -/
structure UpdateCursor where
  rootToCheck : Option Slot
  voteStateUpdateIndex : Nat
  slotHashesIndex : Nat
  indexesToFilter : List Nat
deriving Repr, DecidableEq

/-- Each proposed slot but the first must be above the one before it. -/
def checkProposedOrder (lockouts : List Lockout) (c : UpdateCursor) (proposedVoteSlot : Slot) :
    VoteResult Unit :=
  if c.rootToCheck.isNone && decide (0 < c.voteStateUpdateIndex) then do
    let previous ← indexOrPanic lockouts (c.voteStateUpdateIndex - 1)
    if proposedVoteSlot ≤ previous.slot then failWith .slotsNotOrdered else .ok ()
  else .ok ()

/-- One turn of the loop. The proposed slot is the root while it is still to be checked,
and the lockout at the cursor afterwards. -/
def checkUpdateStep (vs : VoteState) (lockouts : List Lockout) (slotHashes : SlotHashes)
    (earliestSlotHashInHistory : Slot) (c : UpdateCursor) : VoteResult UpdateCursor := do
  let lockout ← indexOrPanic lockouts c.voteStateUpdateIndex
  let proposedVoteSlot := c.rootToCheck.getD lockout.slot
  checkProposedOrder lockouts c proposedVoteSlot
  let (ancestorSlot, _) ← indexOrPanic slotHashes (c.slotHashesIndex - 1)
  match compare proposedVoteSlot ancestorSlot with
  | .lt =>
    if c.slotHashesIndex = slotHashes.length then
      assertOrPanic (decide (proposedVoteSlot < earliestSlotHashInHistory))
      let filtered :=
        if !vs.containsSlot proposedVoteSlot && c.rootToCheck.isNone
        then c.indexesToFilter ++ [c.voteStateUpdateIndex] else c.indexesToFilter
      match c.rootToCheck with
      | some newProposedRoot =>
        assertOrPanic (decide (newProposedRoot = proposedVoteSlot))
        assertOrPanic (decide (newProposedRoot < earliestSlotHashInHistory))
        .ok { c with rootToCheck := none, indexesToFilter := filtered }
      | none =>
        .ok { c with
          voteStateUpdateIndex := c.voteStateUpdateIndex + 1, indexesToFilter := filtered }
    else if c.rootToCheck.isSome then failWith .rootOnDifferentFork
    else failWith .slotsMismatch
  | .gt => .ok { c with slotHashesIndex := c.slotHashesIndex - 1 }
  | .eq =>
    if c.rootToCheck.isSome then .ok { c with rootToCheck := none }
    else .ok { c with
      voteStateUpdateIndex := c.voteStateUpdateIndex + 1
      slotHashesIndex := c.slotHashesIndex - 1 }

/-- The loop, which turns at most once for the root, for each lockout and for each slot
hash. -/
def checkUpdateLoop (vs : VoteState) (lockouts : List Lockout) (slotHashes : SlotHashes)
    (earliestSlotHashInHistory : Slot) : Nat → UpdateCursor → VoteResult UpdateCursor
  | 0, c => .ok c
  | fuel + 1, c =>
    if c.voteStateUpdateIndex < lockouts.length ∧ 0 < c.slotHashesIndex then do
      let c' ← checkUpdateStep vs lockouts slotHashes earliestSlotHashInHistory c
      checkUpdateLoop vs lockouts slotHashes earliestSlotHashInHistory fuel c'
    else .ok c

/-- `lockouts.retain` with the two counters of its closure. -/
def retainUnfiltered (indexesToFilter : List Nat) : Nat → Nat → List Lockout → List Lockout
  | _, _, [] => []
  | filterVotesIndex, voteStateUpdateIndex, lockout :: rest =>
    if filterVotesIndex = indexesToFilter.length then
      lockout :: retainUnfiltered indexesToFilter filterVotesIndex (voteStateUpdateIndex + 1) rest
    else if indexesToFilter[filterVotesIndex]? = some voteStateUpdateIndex then
      retainUnfiltered indexesToFilter (filterVotesIndex + 1) (voteStateUpdateIndex + 1) rest
    else
      lockout :: retainUnfiltered indexesToFilter filterVotesIndex (voteStateUpdateIndex + 1) rest

/-- Returns the update with its root overwritten and its irrelevant lockouts filtered out. -/
def checkUpdateVoteStateSlotsAreValid (vs : VoteState) (update : VoteStateUpdate)
    (slotHashes : SlotHashes) : VoteResult VoteStateUpdate := do
  match update.lockouts.getLast? with
  | none => failWith .emptySlots
  | some lastLockout =>
    let lastVoteStateUpdateSlot := lastLockout.slot
    if (vs.votes.getLast?.map LandedVote.slot).any
        (fun lastVoteSlot => decide (lastVoteStateUpdateSlot ≤ lastVoteSlot)) then
      failWith .voteTooOld
    else match slotHashes.getLast? with
      | none => failWith .slotsMismatch
      | some (earliestSlotHashInHistory, _) =>
        if lastVoteStateUpdateSlot < earliestSlotHashInHistory then failWith .voteTooOld
        else do
          let root := overwriteRoot vs earliestSlotHashInHistory update.root
          let c ← checkUpdateLoop vs update.lockouts slotHashes earliestSlotHashInHistory
            (1 + update.lockouts.length + slotHashes.length) ⟨root, 0, slotHashes.length, []⟩
          if c.voteStateUpdateIndex ≠ update.lockouts.length then failWith .slotsMismatch
          else do
            let (slot, hash) ← indexOrPanic slotHashes c.slotHashesIndex
            assertOrPanic (decide (lastVoteStateUpdateSlot = slot))
            if hash ≠ update.hash then failWith .slotHashMismatch
            else
              .ok { update with
                root := root
                lockouts := retainUnfiltered c.indexesToFilter 0 0 update.lockouts }

/-- The checks of `process_new_vote_state` on the proposed votes, oldest first. -/
def checkNewVotes (newRoot : Option Slot) : Option LandedVote → List LandedVote → VoteResult Unit
  | _, [] => .ok ()
  | previousVote, vote :: rest =>
    if vote.confirmationCount = 0 then failWith .zeroConfirmations
    else if maxLockoutHistory < vote.confirmationCount then failWith .confirmationTooLarge
    -- a root at slot 0 does not count: it is set for every tower without a root
    else if newRoot.any (fun root => decide (vote.slot ≤ root) && decide (root ≠ 0)) then
      failWith .slotSmallerThanRoot
    else match previousVote with
      | none => checkNewVotes newRoot (some vote) rest
      | some previous =>
        if vote.slot ≤ previous.slot then failWith .slotsNotOrdered
        else if previous.confirmationCount ≤ vote.confirmationCount then
          failWith .confirmationsNotOrdered
        else if previous.lockout.lastLockedOutSlot < vote.slot then
          failWith .newVoteStateLockoutMismatch
        else checkNewVotes newRoot (some vote) rest

/-- Counts the current votes up to the new root, with the credits that they earn. -/
def rootedVotes (vs : VoteState) (newRoot : Slot)
    (timelyVoteCredits deprecateUnusedLegacyVotePlumbing : Bool) :
    List LandedVote → Nat → Nat → VoteResult (Nat × Nat)
  | [], currentVoteStateIndex, earnedCredits => .ok (currentVoteStateIndex, earnedCredits)
  | currentVote :: rest, currentVoteStateIndex, earnedCredits =>
    if currentVote.slot ≤ newRoot then
      if timelyVoteCredits || decide (currentVote.slot ≠ newRoot) then
        match checkedAddU64 earnedCredits (vs.creditsForVoteAtIndex currentVoteStateIndex
            timelyVoteCredits deprecateUnusedLegacyVotePlumbing) with
        | none => .error .panic
        | some credits => rootedVotes vs newRoot timelyVoteCredits
            deprecateUnusedLegacyVotePlumbing rest (currentVoteStateIndex + 1) credits
      else rootedVotes vs newRoot timelyVoteCredits deprecateUnusedLegacyVotePlumbing rest
        (currentVoteStateIndex + 1) earnedCredits
    else .ok (currentVoteStateIndex, earnedCredits)

/-- The walk along the current and the new votes: a current vote that the new tower lacks must have
expired, one that it has must not lose confirmations. Latencies are copied. -/
def mergeVotes : Nat → List LandedVote → List LandedVote → VoteResult (List LandedVote)
  | 0, _, new => .ok new
  | _ + 1, [], new => .ok new
  | _ + 1, _ :: _, [] => .ok []
  | fuel + 1, currentVote :: current, newVote :: new =>
    match compare currentVote.slot newVote.slot with
    | .lt =>
      if newVote.slot ≤ currentVote.lockout.lastLockedOutSlot then failWith .lockoutConflict
      else mergeVotes fuel current (newVote :: new)
    | .eq =>
      if newVote.confirmationCount < currentVote.confirmationCount then
        failWith .confirmationRollBack
      else do
        let rest ← mergeVotes fuel current new
        .ok ({ newVote with latency := currentVote.latency } :: rest)
    | .gt => do
      let rest ← mergeVotes fuel (currentVote :: current) new
      .ok (newVote :: rest)

def setNewLatencies (currentSlot : Slot) (new : List LandedVote) : List LandedVote :=
  new.map (fun newVote => if newVote.latency = 0
    then { newVote with latency := VoteState.computeVoteLatency newVote.slot currentSlot }
    else newVote)

def checkRootRollBack (newRoot currentRoot : Option Slot) : VoteResult Unit :=
  match newRoot, currentRoot with
  | some newRoot, some currentRoot =>
    if newRoot < currentRoot then failWith .rootRollBack else .ok ()
  | none, some _ => failWith .rootRollBack
  | _, none => .ok ()

/-- The first current vote above the new root, and the credits earned up to there. -/
def rootCredits (vs : VoteState) (newRoot : Option Slot)
    (timelyVoteCredits deprecateUnusedLegacyVotePlumbing : Bool) : VoteResult (Nat × Nat) :=
  let initialCredits := if timelyVoteCredits then 0 else 1
  match newRoot with
  | none => .ok (0, initialCredits)
  | some root =>
    rootedVotes vs root timelyVoteCredits deprecateUnusedLegacyVotePlumbing vs.votes 0 initialCredits

def stampNewVotes (vs : VoteState) (newState : List LandedVote)
    (timestamp : Option UnixTimestamp) : VoteResult VoteState :=
  match timestamp with
  | none => .ok vs
  | some timestamp =>
    match newState.getLast? with
    | none => .error .panic
    | some lastVote =>
      match vs.processTimestamp lastVote.slot timestamp with
      | none => failWith .timestampTooOld
      | some stamped => .ok stamped

def processNewVoteState (vs : VoteState) (newState : List LandedVote) (newRoot : Option Slot)
    (timestamp : Option UnixTimestamp) (epoch : Epoch) (currentSlot : Slot)
    (featureSet : Option FeatureSet) : VoteResult VoteState := do
  assertOrPanic (!newState.isEmpty)
  if maxLockoutHistory < newState.length then failWith .tooManyVotes
  else do
    checkRootRollBack newRoot vs.rootSlot
    checkNewVotes newRoot none newState
    let timelyVoteCredits := featureSet.any (fun f => f.isActive .timelyVoteCredits)
    let deprecateUnusedLegacyVotePlumbing :=
      featureSet.any (fun f => f.isActive .deprecateUnusedLegacyVotePlumbing)
    let (currentVoteStateIndex, earnedCredits) ←
      rootCredits vs newRoot timelyVoteCredits deprecateUnusedLegacyVotePlumbing
    let merged ← mergeVotes (vs.votes.length + newState.length)
      (vs.votes.drop currentVoteStateIndex) newState
    let newVotes := if timelyVoteCredits then setNewLatencies currentSlot merged else merged
    let credited := if vs.rootSlot ≠ newRoot then vs.incrementCredits epoch earnedCredits else vs
    let stamped ← stampNewVotes credited newVotes timestamp
    .ok { stamped with rootSlot := newRoot, votes := newVotes }

def doProcessVoteStateUpdate (vs : VoteState) (slotHashes : SlotHashes) (epoch : Epoch)
    (slot : Slot) (update : VoteStateUpdate) (featureSet : Option FeatureSet) :
    VoteResult VoteState := do
  let checked ← checkUpdateVoteStateSlotsAreValid vs update slotHashes
  processNewVoteState vs (checked.lockouts.map LandedVote.fromLockout) checked.root
    checked.timestamp epoch slot featureSet

/-- The loop of `check_slots_are_valid`: `i` runs up the vote slots, `j` down the slot
hashes. -/
def checkSlotsLoop (vs : VoteState) (voteSlots : List Slot) (slotHashes : SlotHashes) :
    Nat → Nat → Nat → VoteResult (Nat × Nat)
  | 0, i, j => .ok (i, j)
  | fuel + 1, i, j =>
    if i < voteSlots.length ∧ 0 < j then do
      let voteSlot ← indexOrPanic voteSlots i
      if vs.lastVotedSlot.any (fun lastVotedSlot => decide (voteSlot ≤ lastVotedSlot)) then
        checkSlotsLoop vs voteSlots slotHashes fuel (i + 1) j
      else do
        let (slot, _) ← indexOrPanic slotHashes (j - 1)
        if voteSlot ≠ slot then checkSlotsLoop vs voteSlots slotHashes fuel i (j - 1)
        else checkSlotsLoop vs voteSlots slotHashes fuel (i + 1) (j - 1)
    else .ok (i, j)

def checkSlotsAreValid (vs : VoteState) (voteSlots : List Slot) (voteHash : Hash)
    (slotHashes : SlotHashes) : VoteResult Unit := do
  let (i, j) ← checkSlotsLoop vs voteSlots slotHashes (voteSlots.length + slotHashes.length)
    0 slotHashes.length
  if j = slotHashes.length then failWith .voteTooOld
  else if i ≠ voteSlots.length then failWith .slotsMismatch
  else do
    let (_, hash) ← indexOrPanic slotHashes j
    if hash ≠ voteHash then failWith .slotHashMismatch else .ok ()

def processVoteUnfiltered (vs : VoteState) (voteSlots : List Slot) (vote : Vote)
    (slotHashes : SlotHashes) (epoch : Epoch) (currentSlot : Slot)
    (timelyVoteCredits deprecateUnusedLegacyVotePlumbing : Bool) : VoteResult VoteState := do
  checkSlotsAreValid vs voteSlots vote.hash slotHashes
  .ok (voteSlots.foldl (fun vs s => vs.processNextVoteSlot s epoch currentSlot timelyVoteCredits
    deprecateUnusedLegacyVotePlumbing) vs)

def processVote (vs : VoteState) (vote : Vote) (slotHashes : SlotHashes) (epoch : Epoch)
    (currentSlot : Slot) (timelyVoteCredits deprecateUnusedLegacyVotePlumbing : Bool) :
    VoteResult VoteState :=
  if vote.slots.isEmpty then failWith .emptySlots
  else
    let earliestSlotInHistory := (slotHashes.getLast?.map Prod.fst).getD 0
    let voteSlots := vote.slots.filter (fun slot => decide (earliestSlotInHistory ≤ slot))
    if voteSlots.isEmpty then failWith .votesTooOldAllFiltered
    else processVoteUnfiltered vs voteSlots vote slotHashes epoch currentSlot timelyVoteCredits
      deprecateUnusedLegacyVotePlumbing

/-- Used by the local tower. -/
def processVoteUnchecked (vs : VoteState) (vote : Vote) : VoteResult VoteState :=
  if vote.slots.isEmpty then failWith .emptySlots
  else
    let slotHashes := vote.slots.reverse.map (fun x => (x, vote.hash))
    processVoteUnfiltered vs vote.slots vote slotHashes vs.currentEpoch 0 true true

/-- The result is dropped: a vote that is rejected leaves the vote state as it was. -/
def processSlotVoteUnchecked (vs : VoteState) (slot : Slot) : VoteState :=
  match processVoteUnchecked vs (Vote.new [slot] 0) with
  | .ok vs' => vs'
  | .error _ => vs

end Nuah
