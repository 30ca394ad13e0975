import Nuah.StakeProgram

/-!
# Stake rewards

The points that a stake earned with the credits of its vote account, and the rewards paid
for them at an epoch boundary (`programs/stake/src/points.rs`, `rewards.rs`). Arithmetic
that leaves its machine word panics.
-/

namespace Nuah

/-- A reward round: the lamports to distribute and the points they are distributed over. -/
structure PointValue where
  rewards : Nat
  points : Nat
deriving Repr, DecidableEq

structure CalculatedStakePoints where
  points : Nat
  newCreditsObserved : Nat
  forceCreditsUpdateWithSkippedReward : Bool
deriving Repr, DecidableEq

def unwrapOrPanic {α : Type} : Option α → InstructionResult α
  | some a => .ok a
  | none => .error .panic

/-- One round of the loop over the epoch credits: the points so far and the credits observed
so far, after an entry of the history. -/
def addEpochPoints (stake : Stake) (w : WarmupParams) (acc : Nat × Nat)
    (entry : Epoch × Nat × Nat) : InstructionResult (Nat × Nat) := do
  let (points, newCreditsObserved) := acc
  let (epoch, finalEpochCredits, initialEpochCredits) := entry
  let stakeAmount := stake.delegation.effectiveStake epoch w
  let earnedCredits ← if stake.creditsObserved < initialEpochCredits then
      unwrapOrPanic (checkedSub finalEpochCredits initialEpochCredits)
    else if stake.creditsObserved < finalEpochCredits then
      unwrapOrPanic (checkedSub finalEpochCredits newCreditsObserved)
    else .ok 0
  let earnedPoints ← unwrapOrPanic (checkedMulU128 stakeAmount earnedCredits)
  let points ← unwrapOrPanic (checkedAddU128 points earnedPoints)
  .ok (points, max newCreditsObserved finalEpochCredits)

def calculateStakePointsAndCredits (stake : Stake) (newVoteState : VoteState)
    (w : WarmupParams) : InstructionResult CalculatedStakePoints :=
  let creditsInStake := stake.creditsObserved
  let creditsInVote := newVoteState.credits
  match compare creditsInVote creditsInStake with
  | .lt => .ok ⟨0, creditsInVote, true⟩
  | .eq => .ok ⟨0, creditsInStake, false⟩
  | .gt => do
    let (points, newCreditsObserved) ←
      newVoteState.epochCredits.foldlM (addEpochPoints stake w) (0, creditsInStake)
    .ok ⟨points, newCreditsObserved, false⟩

structure CalculatedStakeRewards where
  stakerRewards : Nat
  voterRewards : Nat
  newCreditsObserved : Nat
deriving Repr, DecidableEq

def calculateStakeRewards (rewardedEpoch : Epoch) (stake : Stake) (pointValue : PointValue)
    (voteState : VoteState) (w : WarmupParams) :
    InstructionResult (Option CalculatedStakeRewards) := do
  let calculated ← calculateStakePointsAndCredits stake voteState w
  let force := calculated.forceCreditsUpdateWithSkippedReward ||
    decide (pointValue.rewards = 0) || decide (stake.delegation.activationEpoch = rewardedEpoch)
  if force then .ok (some ⟨0, 0, calculated.newCreditsObserved⟩)
  else if calculated.points = 0 then .ok none
  else if pointValue.points = 0 then .ok none
  else
    let product ← unwrapOrPanic (checkedMulU128 calculated.points pointValue.rewards)
    let rewards ← unwrapOrPanic (checkedDiv product pointValue.points)
    assertOrPanic (decide (rewards ≤ u64Max))
    if rewards = 0 then .ok none
    else
      let (voterRewards, stakerRewards, isSplit) := voteState.commissionSplit rewards
      if (voterRewards = 0 ∨ stakerRewards = 0) ∧ isSplit then .ok none
      else .ok (some ⟨stakerRewards, voterRewards, calculated.newCreditsObserved⟩)

/-- The stake after its rewards were added to the delegation, and the rewards of the staker
and of the voter. The sum wraps around, as in a build without overflow checks. -/
def redeemStakeRewards (rewardedEpoch : Epoch) (stake : Stake) (pointValue : PointValue)
    (voteState : VoteState) (w : WarmupParams) :
    InstructionResult (Option (Stake × Nat × Nat)) := do
  match ← calculateStakeRewards rewardedEpoch stake pointValue voteState w with
  | none => .ok none
  | some rewards =>
    let amount := (stake.delegation.stake + rewards.stakerRewards) % (u64Max + 1)
    .ok (some ({ stake.withStake amount with creditsObserved := rewards.newCreditsObserved },
      rewards.stakerRewards, rewards.voterRewards))

/-- The runtime writes to the account directly, so only its size is checked. -/
def redeemRewards (rewardedEpoch : Epoch) (account : Account ProgramData)
    (voteState : VoteState) (pointValue : PointValue) (w : WarmupParams) :
    InstructionResult (Account ProgramData × Nat × Nat) := do
  match ← getState account with
  | .stake m stake flags =>
    match ← redeemStakeRewards rewardedEpoch stake pointValue voteState w with
    | some (stake, stakersReward, votersReward) =>
      let lamports ← okOr .arithmeticOverflow (checkedAddU64 account.lamports stakersReward)
      let state := StakeStateV2.stake m stake flags
      if account.data.len < state.serializedSize then reject .accountDataTooSmall
      else .ok ({ account with
        lamports := lamports, data := { account.data with content := .stake state } },
        stakersReward, votersReward)
    | none => reject (.stake .noCreditsToRedeem)
  | _ => reject .invalidAccountData

/-- What happens to stake accounts: an instruction of a transaction, or the payment of
rewards for an epoch. -/
inductive StakeOp where
  | instruction (ctx : StakeContext) (stakeKey : Pubkey) (instr : StakeInstruction)
  | redeemRewards (stakeKey : Pubkey) (rewardedEpoch : Epoch) (voteState : VoteState)
      (pointValue : PointValue) (w : WarmupParams)

/-- The accounts after an operation. One that is rejected changes nothing. -/
def StakeOp.apply (accounts : StakeAccounts) : StakeOp → StakeAccounts
  | .instruction ctx stakeKey instr =>
    match processInstruction ctx accounts stakeKey instr with
    | .ok accounts' => accounts'
    | .error _ => accounts
  | .redeemRewards stakeKey rewardedEpoch voteState pointValue w =>
    match Nuah.redeemRewards rewardedEpoch (accounts stakeKey) voteState pointValue w with
    | .ok (account, _, _) => Function.update accounts stakeKey account
    | .error _ => accounts

def runStakeOps (accounts : StakeAccounts) (ops : List StakeOp) : StakeAccounts :=
  ops.foldl StakeOp.apply accounts

end Nuah
