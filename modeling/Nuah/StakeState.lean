import Nuah.Account
import Nuah.VoteState

/-!
# Stake accounts

How much of a delegation is effective in an epoch (`sdk/program/src/stake/state.rs`,
`stake_flags.rs`, `stake_history.rs`). The share by which stake warms up and cools down, an
`f64`, is the parameter `portion`.
-/

namespace Nuah

structure Clock where
  epoch : Epoch
  unixTimestamp : UnixTimestamp
deriving Repr, DecidableEq

inductive StakeAuthorize where
  | staker
  | withdrawer
deriving Repr, DecidableEq

structure Lockup where
  unixTimestamp : UnixTimestamp
  epoch : Epoch
  custodian : Pubkey
deriving Repr, DecidableEq

def Lockup.default : Lockup := ⟨0, 0, 0⟩

def Lockup.isInForce (lockup : Lockup) (clock : Clock) (custodian : Option Pubkey) : Bool :=
  if custodian = some lockup.custodian then false
  else decide (clock.unixTimestamp < lockup.unixTimestamp) || decide (clock.epoch < lockup.epoch)

structure Authorized where
  staker : Pubkey
  withdrawer : Pubkey
deriving Repr, DecidableEq

def Authorized.check (authorized : Authorized) (signers : List Pubkey)
    (stakeAuthorize : StakeAuthorize) : InstructionResult Unit :=
  match stakeAuthorize with
  | .staker =>
    if signers.contains authorized.staker then .ok () else reject .missingRequiredSignature
  | .withdrawer =>
    if signers.contains authorized.withdrawer then .ok () else reject .missingRequiredSignature

structure Meta where
  rentExemptReserve : Nat
  authorized : Authorized
  lockup : Lockup
deriving Repr, DecidableEq

structure StakeFlags where
  bits : Nat
deriving Repr, DecidableEq

namespace StakeFlags

def empty : StakeFlags := ⟨0⟩
def mustFullyActivateBeforeDeactivationIsPermitted : StakeFlags := ⟨1⟩

def contains (flags other : StakeFlags) : Bool := flags.bits &&& other.bits == other.bits
def remove (flags other : StakeFlags) : StakeFlags := ⟨flags.bits &&& (u8Max ^^^ other.bits)⟩
def union (flags other : StakeFlags) : StakeFlags := ⟨flags.bits ||| other.bits⟩

end StakeFlags

structure StakeHistoryEntry where
  effective : Nat
  activating : Nat
  deactivating : Nat
deriving Repr, DecidableEq

abbrev StakeActivationStatus := StakeHistoryEntry

namespace StakeHistoryEntry

def default : StakeHistoryEntry := ⟨0, 0, 0⟩
def withEffective (effective : Nat) : StakeHistoryEntry := ⟨effective, 0, 0⟩
def withEffectiveAndActivating (effective activating : Nat) : StakeHistoryEntry :=
  ⟨effective, activating, 0⟩
def withDeactivating (deactivating : Nat) : StakeHistoryEntry :=
  ⟨deactivating, 0, deactivating⟩

end StakeHistoryEntry

/-- The `StakeHistory` sysvar; one entry per epoch. -/
abbrev StakeHistory := List (Epoch × StakeHistoryEntry)

def StakeHistory.get (history : StakeHistory) (epoch : Epoch) : Option StakeHistoryEntry :=
  List.lookup epoch history

inductive WarmupCooldownRate where
  | defaultRate
  | newRate
deriving Repr, DecidableEq

def warmupCooldownRate (currentEpoch : Epoch) (newRateActivationEpoch : Option Epoch) :
    WarmupCooldownRate :=
  if currentEpoch < newRateActivationEpoch.getD u64Max then .defaultRate else .newRate

/-- `(weight * newly_effective_cluster_stake) as u64`, where the weight is the account's
transient stake over the cluster's and the newly effective stake of the cluster is the
given rate of its effective stake. -/
abbrev ClusterPortion :=
  (transientStake clusterTransient clusterEffective : Nat) → WarmupCooldownRate → Nat

/-- The portion computed without rounding of intermediate results: the rates are a quarter
and nine percent. -/
def exactPortion : ClusterPortion := fun transientStake clusterTransient clusterEffective rate =>
  match rate with
  | .defaultRate => transientStake * clusterEffective * 25 / (clusterTransient * 100)
  | .newRate => transientStake * clusterEffective * 9 / (clusterTransient * 100)

/-- What the activation of a stake is computed from besides the delegation. -/
structure WarmupParams where
  history : StakeHistory
  newRateActivationEpoch : Option Epoch
  portion : ClusterPortion

structure Delegation where
  voterPubkey : Pubkey
  stake : Nat
  activationEpoch : Epoch
  deactivationEpoch : Epoch
deriving Repr, DecidableEq

namespace Delegation

def new (voterPubkey : Pubkey) (stake : Nat) (activationEpoch : Epoch) : Delegation :=
  ⟨voterPubkey, stake, activationEpoch, u64Max⟩

def isBootstrap (d : Delegation) : Bool := d.activationEpoch == u64Max

/-- The loop of `stake_and_activating`. Its epoch grows up to the target epoch, so the
distance to the target bounds the number of rounds. -/
def activationLoop (d : Delegation) (targetEpoch : Epoch) (w : WarmupParams) :
    Nat → Epoch → StakeHistoryEntry → Nat → Nat
  | 0, _, _, currentEffectiveStake => currentEffectiveStake
  | fuel + 1, prevEpoch, prevClusterStake, currentEffectiveStake =>
    let currentEpoch := prevEpoch + 1
    if prevClusterStake.activating = 0 then currentEffectiveStake
    else
      let remainingActivatingStake := d.stake - currentEffectiveStake
      let newlyEffectiveStake := max 1 (w.portion remainingActivatingStake
        prevClusterStake.activating prevClusterStake.effective
        (warmupCooldownRate currentEpoch w.newRateActivationEpoch))
      let currentEffectiveStake := currentEffectiveStake + newlyEffectiveStake
      if d.stake ≤ currentEffectiveStake then d.stake
      else if targetEpoch ≤ currentEpoch ∨ d.deactivationEpoch ≤ currentEpoch then
        currentEffectiveStake
      else match w.history.get currentEpoch with
        | some currentClusterStake =>
          activationLoop d targetEpoch w fuel currentEpoch currentClusterStake
            currentEffectiveStake
        | none => currentEffectiveStake

/-- The effective and the activating stake, before any deactivation. -/
def stakeAndActivating (d : Delegation) (targetEpoch : Epoch) (w : WarmupParams) :
    Nat × Nat :=
  if d.isBootstrap then (d.stake, 0)
  else if d.activationEpoch = d.deactivationEpoch then (0, 0)
  else if targetEpoch = d.activationEpoch then (0, d.stake)
  else if targetEpoch < d.activationEpoch then (0, 0)
  else match w.history.get d.activationEpoch with
    | some clusterStakeAtActivationEpoch =>
      let currentEffectiveStake := activationLoop d targetEpoch w
        (targetEpoch - d.activationEpoch) d.activationEpoch clusterStakeAtActivationEpoch 0
      (currentEffectiveStake, d.stake - currentEffectiveStake)
    | none => (d.stake, 0)

/-- The loop of `stake_activating_and_deactivating`. -/
def deactivationLoop (targetEpoch : Epoch) (w : WarmupParams) :
    Nat → Epoch → StakeHistoryEntry → Nat → Nat
  | 0, _, _, currentEffectiveStake => currentEffectiveStake
  | fuel + 1, prevEpoch, prevClusterStake, currentEffectiveStake =>
    let currentEpoch := prevEpoch + 1
    if prevClusterStake.deactivating = 0 then currentEffectiveStake
    else
      let newlyNotEffectiveStake := max 1 (w.portion currentEffectiveStake
        prevClusterStake.deactivating prevClusterStake.effective
        (warmupCooldownRate currentEpoch w.newRateActivationEpoch))
      let currentEffectiveStake := currentEffectiveStake - newlyNotEffectiveStake
      if currentEffectiveStake = 0 then currentEffectiveStake
      else if targetEpoch ≤ currentEpoch then currentEffectiveStake
      else match w.history.get currentEpoch with
        | some currentClusterStake =>
          deactivationLoop targetEpoch w fuel currentEpoch currentClusterStake
            currentEffectiveStake
        | none => currentEffectiveStake

def stakeActivatingAndDeactivating (d : Delegation) (targetEpoch : Epoch) (w : WarmupParams) :
    StakeActivationStatus :=
  let (effectiveStake, activatingStake) := d.stakeAndActivating targetEpoch w
  if targetEpoch < d.deactivationEpoch then
    if activatingStake = 0 then .withEffective effectiveStake
    else .withEffectiveAndActivating effectiveStake activatingStake
  else if targetEpoch = d.deactivationEpoch then .withDeactivating effectiveStake
  else match w.history.get d.deactivationEpoch with
    | some clusterStakeAtDeactivationEpoch =>
      .withDeactivating (deactivationLoop targetEpoch w (targetEpoch - d.deactivationEpoch)
        d.deactivationEpoch clusterStakeAtDeactivationEpoch effectiveStake)
    | none => .default

/-- `Delegation::stake`: the effective stake. -/
def effectiveStake (d : Delegation) (epoch : Epoch) (w : WarmupParams) : Nat :=
  (d.stakeActivatingAndDeactivating epoch w).effective

end Delegation

structure Stake where
  delegation : Delegation
  creditsObserved : Nat
deriving Repr, DecidableEq

namespace Stake

def withStake (s : Stake) (amount : Nat) : Stake :=
  { s with delegation := { s.delegation with stake := amount } }

/-- What is left of the stake, and the stake that was split from it. -/
def split (s : Stake) (remainingStakeDelta splitStakeAmount : Nat) :
    InstructionResult (Stake × Stake) :=
  if s.delegation.stake < remainingStakeDelta then reject (.stake .insufficientStake)
  else .ok (s.withStake (s.delegation.stake - remainingStakeDelta), s.withStake splitStakeAmount)

def deactivate (s : Stake) (epoch : Epoch) : InstructionResult Stake :=
  if s.delegation.deactivationEpoch ≠ u64Max then reject (.stake .alreadyDeactivated)
  else .ok { s with delegation := { s.delegation with deactivationEpoch := epoch } }

end Stake

inductive StakeStateV2 where
  | uninitialized
  | initialized (m : Meta)
  | stake (m : Meta) (s : Stake) (flags : StakeFlags)
  | rewardsPool
deriving Repr, DecidableEq

namespace StakeStateV2

def sizeOf : Nat := 200

def serializedSize : StakeStateV2 → Nat
  | uninitialized => 4
  | initialized _ => 124
  | stake _ _ _ => 197
  | rewardsPool => 4

end StakeStateV2

end Nuah
