import Nuah.Lib.MapTotals
import Nuah.StakeState

/-!
# The stakes cache

The bank's cache of vote accounts and stake delegations (`runtime/src/stakes.rs`,
`vote/src/vote_account.rs`). What it asks of an account's data and of a delegation is a
`StakesEnv`. A panic is `none`.
-/

namespace Nuah

open Std (TreeMap)
open MapTotals (addTo)

variable {δ : Type}

structure StakesEnv (δ : Type) where
  voteProgramId : Pubkey
  stakeProgramId : Pubkey
  /-- `VoteStateVersions::is_correct_size_and_initialized`. -/
  isCorrectSizeAndInitialized : δ → Bool
  /-- The `node_pubkey` of the vote state, when the data decodes to one. -/
  nodePubkey : δ → Option Pubkey
  /-- The delegation of the stake state, when the data decodes to one that has it. -/
  delegation : δ → Option Delegation
  /-- `Delegation::stake`. -/
  stake : Delegation → Epoch → StakeHistory → Option Epoch → Nat
  /-- `Delegation::stake_activating_and_deactivating`. -/
  stakeActivatingAndDeactivating :
    Delegation → Epoch → StakeHistory → Option Epoch → StakeActivationStatus

def StakeHistoryEntry.add (a b : StakeHistoryEntry) : StakeHistoryEntry where
  effective := saturatingAddU64 a.effective b.effective
  activating := saturatingAddU64 a.activating b.activating
  deactivating := saturatingAddU64 a.deactivating b.deactivating

def StakeHistory.maxEntries : Nat := 512

def StakeHistory.put (epoch : Epoch) (entry : StakeHistoryEntry) : StakeHistory → StakeHistory
  | [] => [(epoch, entry)]
  | (e, x) :: history =>
    if epoch = e then (epoch, entry) :: history
    else if e < epoch then (epoch, entry) :: (e, x) :: history
    else (e, x) :: put epoch entry history

def StakeHistory.add (history : StakeHistory) (epoch : Epoch) (entry : StakeHistoryEntry) :
    StakeHistory :=
  (StakeHistory.put epoch entry history).take StakeHistory.maxEntries

structure VoteAccounts (δ : Type) where
  voteAccounts : TreeMap Pubkey (Nat × Account δ)
  /-- The cell `staked_nodes`: empty until the first read. -/
  stakedNodesCell : Option (TreeMap Pubkey Nat)

namespace VoteAccounts

def default : VoteAccounts δ := ⟨∅, none⟩

/-- The nonzero stakes of vote accounts, each under the node of its account. -/
def nodePayments (env : StakesEnv δ) (entries : List (Nat × Account δ)) :
    List (Pubkey × Nat) :=
  (entries.filter fun entry => entry.1 ≠ 0).filterMap fun entry =>
    (env.nodePubkey entry.2.data).map fun node => (node, entry.1)

/-- The initial contents of the cell. -/
def groupStakes (env : StakesEnv δ) (accounts : TreeMap Pubkey (Nat × Account δ)) :
    TreeMap Pubkey Nat :=
  (nodePayments env (accounts.toList.map Prod.snd)).foldl
    (fun nodes payment => addTo nodes payment.1 payment.2) ∅

/-- `staked_nodes`: what is read, and the vote accounts with the cell filled. -/
def stakedNodes (env : StakesEnv δ) (va : VoteAccounts δ) :
    TreeMap Pubkey Nat × VoteAccounts δ :=
  match va.stakedNodesCell with
  | some nodes => (nodes, va)
  | none =>
    let nodes := groupStakes env va.voteAccounts
    (nodes, { va with stakedNodesCell := some nodes })

def addNodeStake (env : StakesEnv δ) (va : VoteAccounts δ) (stake : Nat)
    (voteAccount : Account δ) : VoteAccounts δ :=
  if stake = 0 then va
  else match va.stakedNodesCell, env.nodePubkey voteAccount.data with
  | some nodes, some node => { va with stakedNodesCell := some (addTo nodes node stake) }
  | _, _ => va

def subNodeStake (env : StakesEnv δ) (va : VoteAccounts δ) (stake : Nat)
    (voteAccount : Account δ) : Option (VoteAccounts δ) :=
  if stake = 0 then some va
  else match va.stakedNodesCell, env.nodePubkey voteAccount.data with
  | some nodes, some node =>
    match nodes[node]? with
    | none => none -- "this should not happen!"
    | some nodeStake =>
      if nodeStake < stake then none -- "subtraction value exceeds node's stake"
      else if nodeStake = stake then some { va with stakedNodesCell := some (nodes.erase node) }
      else some { va with stakedNodesCell := some (nodes.insert node (nodeStake - stake)) }
  | _, _ => some va

def insert (env : StakesEnv δ) (va : VoteAccounts δ) (pubkey : Pubkey)
    (entry : Nat × Account δ) : Option (VoteAccounts δ) :=
  let added := va.addNodeStake env entry.1 entry.2
  let stored := { added with voteAccounts := added.voteAccounts.insert pubkey entry }
  match va.voteAccounts[pubkey]? with
  | some (stake, voteAccount) => stored.subNodeStake env stake voteAccount
  | none => some stored

def remove (env : StakesEnv δ) (va : VoteAccounts δ) (pubkey : Pubkey) :
    Option (Option (Nat × Account δ) × VoteAccounts δ) :=
  let removed := { va with voteAccounts := va.voteAccounts.erase pubkey }
  match va.voteAccounts[pubkey]? with
  | some (stake, voteAccount) =>
    (removed.subNodeStake env stake voteAccount).map fun va' => (some (stake, voteAccount), va')
  | none => some (none, removed)

def addStake (env : StakesEnv δ) (va : VoteAccounts δ) (pubkey : Pubkey) (delta : Nat) :
    VoteAccounts δ :=
  match va.voteAccounts[pubkey]? with
  | some (stake, voteAccount) =>
    addNodeStake env
      { va with voteAccounts := va.voteAccounts.insert pubkey (stake + delta, voteAccount) }
      delta voteAccount
  | none => va

def subStake (env : StakesEnv δ) (va : VoteAccounts δ) (pubkey : Pubkey) (delta : Nat) :
    Option (VoteAccounts δ) :=
  match va.voteAccounts[pubkey]? with
  | some (stake, voteAccount) => do
    -- "subtraction value exceeds account's stake"
    let rest ← checkedSub stake delta
    subNodeStake env
      { va with voteAccounts := va.voteAccounts.insert pubkey (rest, voteAccount) }
      delta voteAccount
  | none => some va

end VoteAccounts

/-- A stake account, which wraps a stake state that has a delegation. -/
structure StakeAccount (δ : Type) where
  account : Account δ
  delegation : Delegation

/-- `VoteAccount::try_from`. -/
def VoteAccount.tryFrom (env : StakesEnv δ) (account : Account δ) : Option (Account δ) :=
  if account.owner = env.voteProgramId then some account else none

def StakeAccount.tryFrom (env : StakesEnv δ) (account : Account δ) : Option (StakeAccount δ) :=
  if account.owner = env.stakeProgramId then (env.delegation account.data).map (⟨account, ·⟩)
  else none

structure Stakes (δ : Type) where
  voteAccounts : VoteAccounts δ
  stakeDelegations : TreeMap Pubkey (StakeAccount δ)
  epoch : Epoch
  stakeHistory : StakeHistory

/-- How the thread pool cuts a list of work into parts, one fold each. -/
structure WorkSplit (α : Type) where
  split : List α → List (List α)
  flatten_split : ∀ l, (split l).flatten = l

namespace Stakes

def empty (epoch : Epoch) (history : StakeHistory) : Stakes δ :=
  ⟨.default, ∅, epoch, history⟩

def stakeOf (env : StakesEnv δ) (stakes : Stakes δ) (rate : Option Epoch) (d : Delegation) :
    Nat :=
  env.stake d stakes.epoch stakes.stakeHistory rate

/-- `merge` of `refresh_vote_accounts`: the smaller map is added to the larger one. -/
def mergeStakes (stakes other : TreeMap Pubkey Nat) : TreeMap Pubkey Nat :=
  let (into, rest) := if stakes.size < other.size then (other, stakes) else (stakes, other)
  rest.toList.foldl (fun into payment => addTo into payment.1 payment.2) into

def refreshVoteAccounts (stake : Delegation → Nat) (pool : WorkSplit (StakeAccount δ))
    (voteAccounts : VoteAccounts δ) (stakeDelegations : List (StakeAccount δ)) :
    VoteAccounts δ :=
  let delegatedStakes := ((pool.split stakeDelegations).map fun part =>
      part.foldl (fun delegatedStakes stakeAccount =>
        addTo delegatedStakes stakeAccount.delegation.voterPubkey
          (stake stakeAccount.delegation)) ∅).foldl mergeStakes ∅
  { voteAccounts := voteAccounts.voteAccounts.map fun votePubkey entry =>
      ((delegatedStakes[votePubkey]?).getD 0, entry.2)
    stakedNodesCell := none }

def activateEpoch (env : StakesEnv δ) (pool : WorkSplit (StakeAccount δ)) (stakes : Stakes δ)
    (nextEpoch : Epoch) (rate : Option Epoch) : Stakes δ :=
  let stakeDelegations := stakes.stakeDelegations.toList.map Prod.snd
  let entry := ((pool.split stakeDelegations).map fun part =>
      part.foldl (fun acc stakeAccount => acc.add (env.stakeActivatingAndDeactivating
        stakeAccount.delegation stakes.epoch stakes.stakeHistory rate)) .default).foldl
    StakeHistoryEntry.add .default
  let stakeHistory := stakes.stakeHistory.add stakes.epoch entry
  { stakes with
    stakeHistory := stakeHistory
    epoch := nextEpoch
    voteAccounts := refreshVoteAccounts (env.stake · nextEpoch stakeHistory rate) pool
      stakes.voteAccounts stakeDelegations }

def calculateStake (env : StakesEnv δ) (stakes : Stakes δ) (voterPubkey : Pubkey)
    (rate : Option Epoch) : Nat :=
  (((stakes.stakeDelegations.toList.map fun entry => entry.2.delegation).filter
    fun d => d.voterPubkey = voterPubkey).map (stakes.stakeOf env rate)).sum

def removeVoteAccount (env : StakesEnv δ) (stakes : Stakes δ) (votePubkey : Pubkey) :
    Option (Stakes δ) := do
  let (_, voteAccounts) ← stakes.voteAccounts.remove env votePubkey
  return { stakes with voteAccounts := voteAccounts }

def removeStakeDelegation (env : StakesEnv δ) (stakes : Stakes δ) (stakePubkey : Pubkey)
    (rate : Option Epoch) : Option (Stakes δ) :=
  match stakes.stakeDelegations[stakePubkey]? with
  | none => some stakes
  | some stakeAccount => do
    let removed := stakeAccount.delegation
    let voteAccounts ← stakes.voteAccounts.subStake env removed.voterPubkey
      (stakes.stakeOf env rate removed)
    return { stakes with
      stakeDelegations := stakes.stakeDelegations.erase stakePubkey
      voteAccounts := voteAccounts }

def upsertVoteAccount (env : StakesEnv δ) (stakes : Stakes δ) (votePubkey : Pubkey)
    (voteAccount : Account δ) (rate : Option Epoch) : Option (Stakes δ) := do
  guard (voteAccount.lamports ≠ 0)
  let (entry, removed) ← stakes.voteAccounts.remove env votePubkey
  let stake := (entry.map Prod.fst).getD (stakes.calculateStake env votePubkey rate)
  let voteAccounts ← removed.insert env votePubkey (stake, voteAccount)
  return { stakes with voteAccounts := voteAccounts }

/-- The vote accounts after a delegation takes the place of an earlier one under its key, if
there is one. -/
def moveStake (env : StakesEnv δ) (stakes : Stakes δ) (rate : Option Epoch)
    (old : Option Delegation) (new : Delegation) : Option (VoteAccounts δ) :=
  match old with
  | none =>
    some (stakes.voteAccounts.addStake env new.voterPubkey (stakes.stakeOf env rate new))
  | some old =>
    if new.voterPubkey ≠ old.voterPubkey ∨
        stakes.stakeOf env rate new ≠ stakes.stakeOf env rate old then
      (stakes.voteAccounts.subStake env old.voterPubkey (stakes.stakeOf env rate old)).map
        fun va => va.addStake env new.voterPubkey (stakes.stakeOf env rate new)
    else some stakes.voteAccounts

def upsertStakeDelegation (env : StakesEnv δ) (stakes : Stakes δ) (stakePubkey : Pubkey)
    (stakeAccount : StakeAccount δ) (rate : Option Epoch) : Option (Stakes δ) := do
  guard (stakeAccount.account.lamports ≠ 0)
  let old := (stakes.stakeDelegations[stakePubkey]?).map StakeAccount.delegation
  let voteAccounts ← stakes.moveStake env rate old stakeAccount.delegation
  return { stakes with
    stakeDelegations := stakes.stakeDelegations.insert stakePubkey stakeAccount
    voteAccounts := voteAccounts }

/-- `update_stake_accounts` with the accounts of the stake rewards. -/
def updateStakeAccounts (env : StakesEnv δ) (pool : WorkSplit (StakeAccount δ))
    (stakes : Stakes δ) (stakeRewards : List (Pubkey × Account δ)) (rate : Option Epoch) :
    Stakes δ :=
  let rewarded := stakeRewards.filterMap fun reward =>
    (StakeAccount.tryFrom env reward.2).map fun stakeAccount => (reward.1, stakeAccount)
  let stakeDelegations := (rewarded.foldl (fun delegations entry =>
      delegations.insert entry.1 entry.2) stakes.stakeDelegations).filter
    fun _ stakeAccount => stakeAccount.account.lamports ≠ 0
  { stakes with
    stakeDelegations := stakeDelegations
    voteAccounts := refreshVoteAccounts (stakes.stakeOf env rate) pool stakes.voteAccounts
      (stakeDelegations.toList.map Prod.snd) }

def checkAndStore (env : StakesEnv δ) (stakes : Stakes δ) (pubkey : Pubkey)
    (account : Account δ) (rate : Option Epoch) : Option (Stakes δ) :=
  if account.lamports = 0 then
    if account.owner = env.voteProgramId then stakes.removeVoteAccount env pubkey
    else if account.owner = env.stakeProgramId then
      stakes.removeStakeDelegation env pubkey rate
    else some stakes
  else if account.owner = env.voteProgramId then
    if env.isCorrectSizeAndInitialized account.data then
      match VoteAccount.tryFrom env account with
      | some voteAccount => stakes.upsertVoteAccount env pubkey voteAccount rate
      | none => stakes.removeVoteAccount env pubkey
    else stakes.removeVoteAccount env pubkey
  else if account.owner = env.stakeProgramId then
    match StakeAccount.tryFrom env account with
    | some stakeAccount => stakes.upsertStakeDelegation env pubkey stakeAccount rate
    | none => stakes.removeStakeDelegation env pubkey rate
  else some stakes

def handleInvalidKeys (env : StakesEnv δ) (stakes : Stakes δ)
    (invalidVoteKeys : List Pubkey) : Option (Stakes δ) :=
  invalidVoteKeys.foldlM (fun stakes votePubkey => stakes.removeVoteAccount env votePubkey)
    stakes

/-- `staked_nodes` of the cache: what is read, and the cache after the read. -/
def stakedNodes (env : StakesEnv δ) (stakes : Stakes δ) :
    TreeMap Pubkey Nat × Stakes δ :=
  let (nodes, voteAccounts) := stakes.voteAccounts.stakedNodes env
  (nodes, { stakes with voteAccounts := voteAccounts })

end Stakes

inductive StakesCall (δ : Type) where
  | checkAndStore (pubkey : Pubkey) (account : Account δ)
  | handleInvalidKeys (invalidVoteKeys : List Pubkey)
  | activateEpoch (pool : WorkSplit (StakeAccount δ)) (nextEpoch : Epoch) (rate : Option Epoch)
  | updateStakeAccounts (pool : WorkSplit (StakeAccount δ))
      (stakeRewards : List (Pubkey × Account δ))
  | stakedNodes

/-- The cache and the `new_rate_activation_epoch` its callers pass, which changes with the
epoch only. -/
structure CacheState (δ : Type) where
  stakes : Stakes δ
  rate : Option Epoch

def stakesStep (env : StakesEnv δ) (s : CacheState δ) : StakesCall δ → Option (CacheState δ)
  | .checkAndStore pubkey account => do
    return { s with stakes := ← s.stakes.checkAndStore env pubkey account s.rate }
  | .handleInvalidKeys invalidVoteKeys => do
    return { s with stakes := ← s.stakes.handleInvalidKeys env invalidVoteKeys }
  | .activateEpoch pool nextEpoch rate =>
    some ⟨s.stakes.activateEpoch env pool nextEpoch rate, rate⟩
  | .updateStakeAccounts pool stakeRewards =>
    some { s with stakes := s.stakes.updateStakeAccounts env pool stakeRewards s.rate }
  | .stakedNodes => some { s with stakes := (s.stakes.stakedNodes env).2 }

def stakesRun (env : StakesEnv δ) (s : CacheState δ) (calls : List (StakesCall δ)) :
    Option (CacheState δ) :=
  calls.foldlM (stakesStep env) s

end Nuah
