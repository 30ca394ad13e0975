import Nuah.StakeState

/-!
# Stake program

The instructions of the stake program (`programs/stake/src/stake_state.rs`,
`stake_instruction.rs`) as functions on the accounts. An instruction that fails leaves the
accounts as they were: the runtime drops what it has written.
-/

namespace Nuah

def stakeProgramId : Pubkey := 0x6a1d8179137542a983437bdfe2a7ab2557f535c8a78722b68a49dc000000000
def voteProgramId : Pubkey := 0x761481d357474bb7c4d7624ebd3bdb3d8355e73d11043fc0da3538000000000

inductive AccountContent where
  | stake (s : StakeStateV2)
  | vote (v : VoteState)
  | other
deriving Repr, DecidableEq

structure ProgramData where
  len : Nat
  content : AccountContent
deriving Repr, DecidableEq

abbrev StakeAccounts := Pubkey → Account ProgramData

/-- What an instruction reads besides its accounts: the features, the sysvars, and the
signers and writable accounts of the instruction. -/
structure StakeContext where
  featureSet : FeatureSet
  clock : Clock
  rent : Rent
  warmup : WarmupParams
  signers : List Pubkey
  isWritable : Pubkey → Bool

def lamportsPerSol : Nat := 1000000000

def getMinimumDelegation (featureSet : FeatureSet) : Nat :=
  if featureSet.isActive .stakeRaiseMinimumDelegationTo1Sol then 1 * lamportsPerSol else 1

def checkedAdd (a b : Nat) : InstructionResult Nat :=
  okOr .insufficientFunds (checkedAddU64 a b)

/-! ## Access to accounts -/

namespace StakeContext

def borrow (ctx : StakeContext) (accounts : StakeAccounts) (key : Pubkey) :
    BorrowedAccount ProgramData :=
  ⟨accounts key, some stakeProgramId, ctx.isWritable key⟩

def setState (ctx : StakeContext) (accounts : StakeAccounts) (key : Pubkey)
    (state : StakeStateV2) : InstructionResult StakeAccounts := do
  (ctx.borrow accounts key).canDataBeChanged
  if (accounts key).data.len < state.serializedSize then reject .accountDataTooSmall
  else .ok (Function.update accounts key
    { accounts key with data := { (accounts key).data with content := .stake state } })

def addLamports (ctx : StakeContext) (accounts : StakeAccounts) (key : Pubkey)
    (lamports : Nat) : InstructionResult StakeAccounts := do
  let borrowed ← (ctx.borrow accounts key).checkedAddLamports lamports
  .ok (Function.update accounts key borrowed.account)

def subLamports (ctx : StakeContext) (accounts : StakeAccounts) (key : Pubkey)
    (lamports : Nat) : InstructionResult StakeAccounts := do
  let borrowed ← (ctx.borrow accounts key).checkedSubLamports lamports
  .ok (Function.update accounts key borrowed.account)

end StakeContext

def getState (account : Account ProgramData) : InstructionResult StakeStateV2 :=
  match account.data.content with
  | .stake state => .ok state
  | _ => reject .invalidAccountData

def getVoteState (account : Account ProgramData) : InstructionResult VoteState :=
  match account.data.content with
  | .vote voteState => .ok voteState
  | _ => reject .invalidAccountData

def getStakeStatus (ctx : StakeContext) (stake : Stake) : StakeActivationStatus :=
  stake.delegation.stakeActivatingAndDeactivating ctx.clock.epoch ctx.warmup

/-! ## Initialize, delegate, deactivate -/

def initializeStake (ctx : StakeContext) (accounts : StakeAccounts) (stakeKey : Pubkey)
    (authorized : Authorized) (lockup : Lockup) : InstructionResult StakeAccounts := do
  let account := accounts stakeKey
  if account.data.len ≠ StakeStateV2.sizeOf then reject .invalidAccountData
  else match ← getState account with
    | .uninitialized =>
      let rentExemptReserve := ctx.rent.minimumBalance account.data.len
      if rentExemptReserve ≤ account.lamports then
        ctx.setState accounts stakeKey (.initialized ⟨rentExemptReserve, authorized, lockup⟩)
      else reject .insufficientFunds
    | _ => reject .invalidAccountData

/-- The stake amount of an account, which is what it holds above the rent. -/
def validateDelegatedAmount (account : Account ProgramData) (m : Meta) (featureSet : FeatureSet) :
    InstructionResult Nat :=
  let stakeAmount := account.lamports - m.rentExemptReserve
  if stakeAmount < getMinimumDelegation featureSet then reject (.stake .insufficientDelegation)
  else .ok stakeAmount

def newStake (stake : Nat) (voterPubkey : Pubkey) (voteState : VoteState)
    (activationEpoch : Epoch) : Stake :=
  ⟨Delegation.new voterPubkey stake activationEpoch, voteState.credits⟩

def redelegateStake (ctx : StakeContext) (stake : Stake) (stakeLamports : Nat)
    (voterPubkey : Pubkey) (voteState : VoteState) : InstructionResult Stake :=
  if stake.delegation.effectiveStake ctx.clock.epoch ctx.warmup ≠ 0 then
    -- With redelegation the lamports of a deactivated stake may have moved to another
    -- account, so the deactivation is only rescinded when they are still there.
    let stakeLamportsOk := if ctx.featureSet.isActive .stakeRedelegateInstruction then
      decide (stake.delegation.stake ≤ stakeLamports) else true
    if stake.delegation.voterPubkey = voterPubkey ∧
        ctx.clock.epoch = stake.delegation.deactivationEpoch ∧ stakeLamportsOk = true then
      .ok { stake with delegation := { stake.delegation with deactivationEpoch := u64Max } }
    else reject (.stake .tooSoonToRedelegate)
  else
    .ok ⟨⟨voterPubkey, stakeLamports, ctx.clock.epoch, u64Max⟩, voteState.credits⟩

def delegate (ctx : StakeContext) (accounts : StakeAccounts) (stakeKey voteKey : Pubkey) :
    InstructionResult StakeAccounts := do
  if (accounts voteKey).owner ≠ voteProgramId then reject .incorrectProgramId
  else
    let voteState := getVoteState (accounts voteKey)
    match ← getState (accounts stakeKey) with
    | .initialized m =>
      m.authorized.check ctx.signers .staker
      let stakeAmount ← validateDelegatedAmount (accounts stakeKey) m ctx.featureSet
      let stake := newStake stakeAmount voteKey (← voteState) ctx.clock.epoch
      ctx.setState accounts stakeKey (.stake m stake .empty)
    | .stake m stake flags =>
      m.authorized.check ctx.signers .staker
      let stakeAmount ← validateDelegatedAmount (accounts stakeKey) m ctx.featureSet
      let stake ← redelegateStake ctx stake stakeAmount voteKey (← voteState)
      ctx.setState accounts stakeKey (.stake m stake flags)
    | _ => reject .invalidAccountData

def deactivateStake (ctx : StakeContext) (stake : Stake) (flags : StakeFlags) (epoch : Epoch) :
    InstructionResult (Stake × StakeFlags) :=
  if ctx.featureSet.isActive .stakeRedelegateInstruction then
    if flags.contains .mustFullyActivateBeforeDeactivationIsPermitted then
      let status := stake.delegation.stakeActivatingAndDeactivating epoch ctx.warmup
      if status.activating ≠ 0 then
        reject (.stake .redelegatedStakeMustFullyActivateBeforeDeactivationIsPermitted)
      else do
        let stake ← stake.deactivate epoch
        .ok (stake, flags.remove .mustFullyActivateBeforeDeactivationIsPermitted)
    else do
      let stake ← stake.deactivate epoch
      .ok (stake, flags)
  else do
    let stake ← stake.deactivate epoch
    .ok (stake, flags)

def deactivate (ctx : StakeContext) (accounts : StakeAccounts) (stakeKey : Pubkey) :
    InstructionResult StakeAccounts := do
  match ← getState (accounts stakeKey) with
  | .stake m stake flags =>
    m.authorized.check ctx.signers .staker
    let (stake, flags) ← deactivateStake ctx stake flags ctx.clock.epoch
    ctx.setState accounts stakeKey (.stake m stake flags)
  | _ => reject .invalidAccountData

/-! ## Withdraw -/

/-- The lockup of an account, what a withdrawal has to leave in it, and whether it has
stake. -/
def withdrawalReserve (ctx : StakeContext) (stakeKey withdrawAuthority : Pubkey) :
    StakeStateV2 → InstructionResult (Lockup × Nat × Bool)
  | .stake m stake _ => do
    m.authorized.check [withdrawAuthority] .withdrawer
    -- Before its deactivation the whole delegation counts as staked, since more of it may
    -- become effective later.
    let staked := if stake.delegation.deactivationEpoch ≤ ctx.clock.epoch then
      stake.delegation.effectiveStake ctx.clock.epoch ctx.warmup else stake.delegation.stake
    let stakedAndReserve ← checkedAdd staked m.rentExemptReserve
    .ok (m.lockup, stakedAndReserve, decide (staked ≠ 0))
  | .initialized m => do
    m.authorized.check [withdrawAuthority] .withdrawer
    .ok (m.lockup, m.rentExemptReserve, false)
  | .uninitialized =>
    if withdrawAuthority ≠ stakeKey then reject .missingRequiredSignature
    else .ok (Lockup.default, 0, false)
  | .rewardsPool => reject .invalidAccountData

/-- An account that is about to be emptied loses its state. -/
def deinitializeIfDrained (ctx : StakeContext) (accounts : StakeAccounts) (key : Pubkey)
    (lamports : Nat) : InstructionResult StakeAccounts :=
  if lamports = (accounts key).lamports then ctx.setState accounts key .uninitialized
  else .ok accounts

def withdraw (ctx : StakeContext) (accounts : StakeAccounts) (stakeKey : Pubkey)
    (lamports : Nat) (toKey withdrawAuthority : Pubkey) (custodianKey : Option Pubkey) :
    InstructionResult StakeAccounts := do
  if !ctx.signers.contains withdrawAuthority then reject .missingRequiredSignature
  else
    let balance := (accounts stakeKey).lamports
    let state ← getState (accounts stakeKey)
    let (lockup, reserve, isStaked) ← withdrawalReserve ctx stakeKey withdrawAuthority state
    let custodian := custodianKey.filter ctx.signers.contains
    if lockup.isInForce ctx.clock custodian then reject (.stake .lockupInForce)
    else
      let lamportsAndReserve ← checkedAdd lamports reserve
      if isStaked ∧ balance < lamportsAndReserve then reject .insufficientFunds
      else if lamports ≠ balance ∧ balance < lamportsAndReserve then do
        assertOrPanic !isStaked
        reject .insufficientFunds
      else
        let accounts ← deinitializeIfDrained ctx accounts stakeKey lamports
        let accounts ← ctx.subLamports accounts stakeKey lamports
        ctx.addLamports accounts toKey lamports

/-! ## Split -/

structure ValidatedSplitInfo where
  sourceRemainingBalance : Nat
  destinationRentExemptReserve : Nat
deriving Repr, DecidableEq

def validateSplitAmount (ctx : StakeContext) (accounts : StakeAccounts)
    (sourceKey destinationKey : Pubkey) (lamports : Nat) (sourceMeta : Meta)
    (additionalRequiredLamports : Nat) (sourceIsActive : Bool) :
    InstructionResult ValidatedSplitInfo :=
  let sourceLamports := (accounts sourceKey).lamports
  let destinationLamports := (accounts destinationKey).lamports
  if lamports = 0 then reject .insufficientFunds
  else if sourceLamports < lamports then reject .insufficientFunds
  else
    let sourceMinimumBalance :=
      saturatingAddU64 sourceMeta.rentExemptReserve additionalRequiredLamports
    let sourceRemainingBalance := sourceLamports - lamports
    if sourceRemainingBalance ≠ 0 ∧ sourceRemainingBalance < sourceMinimumBalance then
      reject .insufficientFunds
    else
      let destinationRentExemptReserve :=
        ctx.rent.minimumBalance (accounts destinationKey).data.len
      if sourceIsActive ∧ sourceRemainingBalance ≠ 0 ∧
          destinationLamports < destinationRentExemptReserve then
        reject .insufficientFunds
      else
        let destinationMinimumBalance :=
          saturatingAddU64 destinationRentExemptReserve additionalRequiredLamports
        let destinationBalanceDeficit := destinationMinimumBalance - destinationLamports
        if lamports < destinationBalanceDeficit then reject .insufficientFunds
        else .ok ⟨sourceRemainingBalance, destinationRentExemptReserve⟩

/-- How much of the delegation leaves the source, and how much of it the split account gets. Any
split but one of the whole balance first fills up the rent of the split account. -/
def splitStakeAmounts (info : ValidatedSplitInfo) (m : Meta) (stake : Stake)
    (lamports splitLamportBalance minimumDelegation : Nat) :
    InstructionResult (Nat × Nat) :=
  if info.sourceRemainingBalance = 0 then
    let remainingStakeDelta := lamports - m.rentExemptReserve
    .ok (remainingStakeDelta, remainingStakeDelta)
  else if stake.delegation.stake - lamports < minimumDelegation then
    reject (.stake .insufficientDelegation)
  else .ok (lamports, lamports - (info.destinationRentExemptReserve - splitLamportBalance))

def splitStates (ctx : StakeContext) (accounts : StakeAccounts) (stakeKey splitKey : Pubkey)
    (lamports : Nat) : StakeStateV2 → InstructionResult StakeAccounts
  | .stake m stake flags => do
    m.authorized.check ctx.signers .staker
    let minimumDelegation := getMinimumDelegation ctx.featureSet
    let isActive := decide (0 < (getStakeStatus ctx stake).effective)
    let info ← validateSplitAmount ctx accounts stakeKey splitKey lamports m minimumDelegation
      isActive
    let (remainingStakeDelta, splitStakeAmount) ← splitStakeAmounts info m stake lamports
      (accounts splitKey).lamports minimumDelegation
    if splitStakeAmount < minimumDelegation then reject (.stake .insufficientDelegation)
    else
      let (stake, splitStake) ← stake.split remainingStakeDelta splitStakeAmount
      let splitMeta := { m with rentExemptReserve := info.destinationRentExemptReserve }
      let accounts ← ctx.setState accounts stakeKey (.stake m stake flags)
      ctx.setState accounts splitKey (.stake splitMeta splitStake flags)
  | .initialized m => do
    m.authorized.check ctx.signers .staker
    let info ← validateSplitAmount ctx accounts stakeKey splitKey lamports m 0 false
    let splitMeta := { m with rentExemptReserve := info.destinationRentExemptReserve }
    ctx.setState accounts splitKey (.initialized splitMeta)
  | .uninitialized =>
    if !ctx.signers.contains stakeKey then reject .missingRequiredSignature else .ok accounts
  | .rewardsPool => reject .invalidAccountData

def split (ctx : StakeContext) (accounts : StakeAccounts) (stakeKey : Pubkey)
    (lamports : Nat) (splitKey : Pubkey) : InstructionResult StakeAccounts := do
  if (accounts splitKey).owner ≠ stakeProgramId then reject .incorrectProgramId
  else if (accounts splitKey).data.len ≠ StakeStateV2.sizeOf then reject .invalidAccountData
  else
    let splitState ← getState (accounts splitKey)
    if splitState ≠ .uninitialized then reject .invalidAccountData
    else if (accounts stakeKey).lamports < lamports then reject .insufficientFunds
    else
      let state ← getState (accounts stakeKey)
      let accounts ← splitStates ctx accounts stakeKey splitKey lamports state
      let accounts ← deinitializeIfDrained ctx accounts stakeKey lamports
      let accounts ← ctx.addLamports accounts splitKey lamports
      ctx.subLamports accounts stakeKey lamports

/-! ## Merge -/

inductive MergeKind where
  | inactive (m : Meta) (lamports : Nat) (flags : StakeFlags)
  | activationEpoch (m : Meta) (stake : Stake) (flags : StakeFlags)
  | fullyActive (m : Meta) (stake : Stake)
deriving Repr, DecidableEq

/-- The credits observed by the merger of two stakes: their average weighted by stake,
rounded up. -/
def stakeWeightedCreditsObserved (stake : Stake) (absorbedLamports : Nat)
    (absorbedCreditsObserved : Nat) : Option Nat :=
  if stake.creditsObserved = absorbedCreditsObserved then some stake.creditsObserved
  else do
    let totalStake ← checkedAddU64 stake.delegation.stake absorbedLamports
    let stakeWeightedCredits ← checkedMulU128 stake.creditsObserved stake.delegation.stake
    let absorbedWeightedCredits ← checkedMulU128 absorbedCreditsObserved absorbedLamports
    let weightedCredits ← checkedAddU128 stakeWeightedCredits absorbedWeightedCredits
    let roundedCredits ← checkedAddU128 weightedCredits totalStake
    let totalWeightedCredits ← checkedSub roundedCredits 1
    let credits ← checkedDiv totalWeightedCredits totalStake
    if credits ≤ u64Max then some credits else none

def mergeDelegationStakeAndCreditsObserved (stake : Stake) (absorbedLamports : Nat)
    (absorbedCreditsObserved : Nat) : InstructionResult Stake := do
  let creditsObserved ← okOr .arithmeticOverflow
    (stakeWeightedCreditsObserved stake absorbedLamports absorbedCreditsObserved)
  let amount ← checkedAdd stake.delegation.stake absorbedLamports
  .ok { stake.withStake amount with creditsObserved := creditsObserved }

namespace MergeKind

def metaOf : MergeKind → Meta
  | inactive m _ _ => m
  | activationEpoch m _ _ => m
  | fullyActive m _ => m

def activeStake : MergeKind → Option Stake
  | inactive _ _ _ => none
  | activationEpoch _ stake _ => some stake
  | fullyActive _ stake => some stake

def getIfMergeable (ctx : StakeContext) (state : StakeStateV2) (stakeLamports : Nat) :
    InstructionResult MergeKind :=
  match state with
  | .stake m stake flags =>
    let status := getStakeStatus ctx stake
    if status.effective = 0 then
      if status.activating = 0 ∧ status.deactivating = 0 then .ok (inactive m stakeLamports flags)
      else .ok (activationEpoch m stake flags)
    else if status.activating = 0 ∧ status.deactivating = 0 then .ok (fullyActive m stake)
    else reject (.stake .mergeTransientStake)
  | .initialized m => .ok (inactive m stakeLamports .empty)
  | _ => reject .invalidAccountData

def metasCanMerge (stake source : Meta) (clock : Clock) : InstructionResult Unit :=
  let canMergeLockups := decide (stake.lockup = source.lockup) ||
    (!stake.lockup.isInForce clock none && !source.lockup.isInForce clock none)
  if stake.authorized = source.authorized ∧ canMergeLockups then .ok ()
  else reject (.stake .mergeMismatch)

def activeDelegationsCanMerge (stake source : Delegation) : InstructionResult Unit :=
  if stake.voterPubkey ≠ source.voterPubkey then reject (.stake .mergeMismatch)
  else if stake.deactivationEpoch = u64Max ∧ source.deactivationEpoch = u64Max then .ok ()
  else reject (.stake .mergeMismatch)

def activeStakesCanMerge : Option Stake → Option Stake → InstructionResult Unit
  | some stake, some source => activeDelegationsCanMerge stake.delegation source.delegation
  | _, _ => .ok ()

def mergedState : MergeKind → MergeKind → InstructionResult (Option StakeStateV2)
  | inactive _ _ _, inactive _ _ _ => .ok none
  | inactive _ _ _, activationEpoch _ _ _ => .ok none
  | activationEpoch m stake flags, inactive _ sourceLamports sourceFlags => do
    let amount ← checkedAdd stake.delegation.stake sourceLamports
    .ok (some (.stake m (stake.withStake amount) (flags.union sourceFlags)))
  | activationEpoch m stake flags, activationEpoch sourceMeta sourceStake sourceFlags => do
    let sourceLamports ← checkedAdd sourceMeta.rentExemptReserve sourceStake.delegation.stake
    let stake ← mergeDelegationStakeAndCreditsObserved stake sourceLamports
      sourceStake.creditsObserved
    .ok (some (.stake m stake (flags.union sourceFlags)))
  | fullyActive m stake, fullyActive _ sourceStake => do
    let stake ← mergeDelegationStakeAndCreditsObserved stake sourceStake.delegation.stake
      sourceStake.creditsObserved
    .ok (some (.stake m stake .empty))
  | _, _ => reject (.stake .mergeMismatch)

/-- The new state of the destination, or nothing when it stays as it is. -/
def merge (stake source : MergeKind) (clock : Clock) : InstructionResult (Option StakeStateV2) := do
  metasCanMerge stake.metaOf source.metaOf clock
  activeStakesCanMerge stake.activeStake source.activeStake
  mergedState stake source

end MergeKind

def setStateIfSome (ctx : StakeContext) (accounts : StakeAccounts) (key : Pubkey) :
    Option StakeStateV2 → InstructionResult StakeAccounts
  | some state => ctx.setState accounts key state
  | none => .ok accounts

def merge (ctx : StakeContext) (accounts : StakeAccounts) (stakeKey sourceKey : Pubkey) :
    InstructionResult StakeAccounts := do
  if (accounts sourceKey).owner ≠ stakeProgramId then reject .incorrectProgramId
  else if stakeKey = sourceKey then reject .invalidArgument
  else
    let stakeState ← getState (accounts stakeKey)
    let stakeMergeKind ← MergeKind.getIfMergeable ctx stakeState (accounts stakeKey).lamports
    stakeMergeKind.metaOf.authorized.check ctx.signers .staker
    let sourceState ← getState (accounts sourceKey)
    let sourceMergeKind ← MergeKind.getIfMergeable ctx sourceState (accounts sourceKey).lamports
    let merged ← stakeMergeKind.merge sourceMergeKind ctx.clock
    let accounts ← setStateIfSome ctx accounts stakeKey merged
    let accounts ← ctx.setState accounts sourceKey .uninitialized
    let lamports := (accounts sourceKey).lamports
    let accounts ← ctx.subLamports accounts sourceKey lamports
    ctx.addLamports accounts stakeKey lamports

/-! ## Redelegate -/

def redelegate (ctx : StakeContext) (accounts : StakeAccounts)
    (stakeKey uninitializedStakeKey voteKey : Pubkey) : InstructionResult StakeAccounts := do
  -- The three accounts stay borrowed until the end, so they are different ones.
  if uninitializedStakeKey = stakeKey then reject .accountBorrowFailed
  else if (accounts uninitializedStakeKey).owner ≠ stakeProgramId then reject .incorrectProgramId
  else if (accounts uninitializedStakeKey).data.len ≠ StakeStateV2.sizeOf then
    reject .invalidAccountData
  else
    let uninitializedState ← getState (accounts uninitializedStakeKey)
    if uninitializedState ≠ .uninitialized then reject .accountAlreadyInitialized
    else if voteKey = stakeKey ∨ voteKey = uninitializedStakeKey then reject .accountBorrowFailed
    else if (accounts voteKey).owner ≠ voteProgramId then reject .incorrectProgramId
    else
      let voteState ← getVoteState (accounts voteKey)
      match ← getState (accounts stakeKey) with
      | .stake m stake _ =>
        let status := getStakeStatus ctx stake
        if status.effective = 0 ∨ status.activating ≠ 0 ∨ status.deactivating ≠ 0 then
          reject (.stake .redelegateTransientOrInactiveStake)
        else if stake.delegation.voterPubkey = voteKey then
          reject (.stake .redelegateToSameVoteAccount)
        else
          let accounts ← deactivate ctx accounts stakeKey
          let accounts ← ctx.subLamports accounts stakeKey status.effective
          let accounts ← ctx.addLamports accounts uninitializedStakeKey status.effective
          let uninitializedStakeMeta := { m with
            rentExemptReserve :=
              ctx.rent.minimumBalance (accounts uninitializedStakeKey).data.len }
          let stakeAmount ← validateDelegatedAmount (accounts uninitializedStakeKey)
            uninitializedStakeMeta ctx.featureSet
          ctx.setState accounts uninitializedStakeKey (.stake uninitializedStakeMeta
            (newStake stakeAmount voteKey voteState ctx.clock.epoch)
            .mustFullyActivateBeforeDeactivationIsPermitted)
      | _ => reject .invalidAccountData

/-! ## The instruction processor -/

/-- The instructions that move stake or lamports, with the accounts they are given besides
the stake account itself. -/
inductive StakeInstruction where
  | initializeStake (authorized : Authorized) (lockup : Lockup)
  | delegateStake (voteKey : Pubkey)
  | split (lamports : Nat) (splitKey : Pubkey)
  | merge (sourceKey : Pubkey)
  | withdraw (lamports : Nat) (toKey withdrawAuthority : Pubkey)
      (custodianKey : Option Pubkey)
  | deactivate
  | redelegate (uninitializedStakeKey voteKey : Pubkey)
deriving Repr, DecidableEq

def processInstruction (ctx : StakeContext) (accounts : StakeAccounts) (stakeKey : Pubkey)
    (instruction : StakeInstruction) : InstructionResult StakeAccounts :=
  if (accounts stakeKey).owner ≠ stakeProgramId then reject .invalidAccountOwner
  else match instruction with
    | .initializeStake authorized lockup => initializeStake ctx accounts stakeKey authorized lockup
    | .delegateStake voteKey => delegate ctx accounts stakeKey voteKey
    | .split lamports splitKey => split ctx accounts stakeKey lamports splitKey
    | .merge sourceKey => merge ctx accounts stakeKey sourceKey
    | .withdraw lamports toKey withdrawAuthority custodianKey =>
      withdraw ctx accounts stakeKey lamports toKey withdrawAuthority custodianKey
    | .deactivate => deactivate ctx accounts stakeKey
    | .redelegate uninitializedStakeKey voteKey =>
      if ctx.featureSet.isActive .stakeRedelegateInstruction then
        redelegate ctx accounts stakeKey uninitializedStakeKey voteKey
      else reject .invalidInstructionData

end Nuah
