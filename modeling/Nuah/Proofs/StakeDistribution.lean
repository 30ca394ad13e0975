import Nuah.StakesCache

/-!
# The cached stake distribution is exact

Every vote account of the cache carries the stake that the cached delegations give it, and
the cell of staked nodes, once filled, tallies these stakes by node.
-/

namespace Nuah.Proofs

open Std (TreeMap)
open OrderedMaps MapTotals VoteAccounts List

variable {pubkey voter : Pubkey}

variable {δ : Type} {env : StakesEnv δ}

variable {voteAccount : Account δ} {accounts : TreeMap Pubkey (Nat × Account δ)}
  {va : VoteAccounts δ} {amount amount' : Pubkey → Nat} {stake : Nat}

/-- What a vote account with the given stake adds to the stake of a node. -/
def nodeCredit (env : StakesEnv δ) (stake : Nat) (voteAccount : Account δ) (node : Pubkey) :
    Nat :=
  if env.nodePubkey voteAccount.data = some node then stake else 0

/-- The stake of a node: the sum over the vote accounts whose state names it. -/
def nodeStake (env : StakesEnv δ) (accounts : TreeMap Pubkey (Nat × Account δ))
    (node : Pubkey) : Nat :=
  total accounts fun _ entry => nodeCredit env entry.1 entry.2 node

def CellTallies (va : VoteAccounts δ) (amount : Pubkey → Nat) : Prop :=
  ∀ nodes, va.stakedNodesCell = some nodes → Tallies nodes amount

lemma nodeCredit_zero (voteAccount : Account δ) (node : Pubkey) :
    nodeCredit env 0 voteAccount node = 0 :=
  ite_self 0

lemma nodeCredit_none (h : env.nodePubkey voteAccount.data = none) (stake : Nat) (node : Pubkey) :
    nodeCredit env stake voteAccount node = 0 := by
  simp [nodeCredit, h]

lemma nodeCredit_some {owner : Pubkey} (h : env.nodePubkey voteAccount.data = some owner)
    (stake : Nat) :
    nodeCredit env stake voteAccount = fun node => if owner = node then stake else 0 := by
  funext node
  simp [nodeCredit, h]

lemma nodeStake_insert (accounts : TreeMap Pubkey (Nat × Account δ)) (pubkey : Pubkey)
    (entry : Nat × Account δ) (node : Pubkey) :
    nodeStake env (accounts.insert pubkey entry) node =
      nodeStake env (accounts.erase pubkey) node + nodeCredit env entry.1 entry.2 node := by
  rw [nodeStake, total_insert, Nat.add_comm]
  rfl

lemma nodeStake_of_getElem? {entry : Nat × Account δ} (h : accounts[pubkey]? = some entry)
    (node : Pubkey) :
    nodeStake env accounts node =
      nodeStake env (accounts.erase pubkey) node + nodeCredit env entry.1 entry.2 node := by
  rw [nodeStake, total_of_getElem?_eq_some h, Nat.add_comm]
  rfl

lemma nodeStake_erase_of_none (h : accounts[pubkey]? = none) (node : Pubkey) :
    nodeStake env (accounts.erase pubkey) node = nodeStake env accounts node :=
  total_erase_of_getElem?_eq_none h _

lemma CellTallies.congr (h : CellTallies va amount) (heq : ∀ node, amount node = amount' node) :
    CellTallies va amount' :=
  funext heq ▸ h

lemma CellTallies.withAccounts (h : CellTallies va amount)
    (accounts : TreeMap Pubkey (Nat × Account δ)) :
    CellTallies { va with voteAccounts := accounts } amount :=
  h

lemma addNodeStake_voteAccounts (va : VoteAccounts δ) (stake : Nat) (voteAccount : Account δ) :
    (va.addNodeStake env stake voteAccount).voteAccounts = va.voteAccounts := by
  unfold addNodeStake
  split
  · rfl
  · split <;> rfl

lemma CellTallies.addNodeStake (h : CellTallies va amount) (stake : Nat) (voteAccount : Account δ) :
    CellTallies (va.addNodeStake env stake voteAccount)
      (fun node => amount node + nodeCredit env stake voteAccount node) := by
  unfold VoteAccounts.addNodeStake
  by_cases h0 : stake = 0
  · subst h0
    simpa [nodeCredit_zero] using h
  rw [if_neg h0]
  split
  case h_1 nodes owner hcell howner =>
    rintro _ ⟨⟩
    rw [nodeCredit_some howner]
    exact (h nodes hcell).addTo h0
  case h_2 hmiss =>
    intro nodes hcell
    rcases howner : env.nodePubkey voteAccount.data with _ | owner
    · simpa [nodeCredit_none howner] using h nodes hcell
    · exact (hmiss nodes owner hcell howner).elim

lemma subNodeStake_spec
    (h : CellTallies va (fun node => amount node + nodeCredit env stake voteAccount node)) :
    ∃ va', va.subNodeStake env stake voteAccount = some va' ∧
      va'.voteAccounts = va.voteAccounts ∧ CellTallies va' amount := by
  unfold subNodeStake
  by_cases h0 : stake = 0
  · subst h0
    exact ⟨va, if_pos rfl, rfl, h.congr fun node => by rw [nodeCredit_zero, Nat.add_zero]⟩
  rw [if_neg h0]
  split
  case h_1 nodes owner hcell howner =>
    have htallies := h nodes hcell
    rw [nodeCredit_some howner] at htallies
    have hstake : nodes[owner]? = some (amount owner + stake) := by
      simpa [h0] using htallies owner
    rw [hstake]
    dsimp only
    rw [if_neg (by omega), Nat.add_sub_cancel]
    by_cases hrest : amount owner = 0
    · rw [if_pos (by omega)]
      refine ⟨_, rfl, rfl, ?_⟩
      rintro _ ⟨⟩
      exact htallies.erase_rest hrest
    · rw [if_neg (by omega)]
      refine ⟨_, rfl, rfl, ?_⟩
      rintro _ ⟨⟩
      exact htallies.insert_rest hrest
  case h_2 hmiss =>
    refine ⟨va, rfl, rfl, ?_⟩
    intro nodes hcell
    rcases howner : env.nodePubkey voteAccount.data with _ | owner
    · simpa [nodeCredit_none howner] using h nodes hcell
    · exact (hmiss nodes owner hcell howner).elim

def StakesAre (accounts : TreeMap Pubkey (Nat × Account δ)) (amount : Pubkey → Nat) : Prop :=
  ∀ pubkey stake voteAccount,
    accounts[pubkey]? = some (stake, voteAccount) → stake = amount pubkey

section StakesAre

section

variable (h : StakesAre accounts amount)

include h

lemma StakesAre.erase (pubkey : Pubkey) : StakesAre (accounts.erase pubkey) amount := by
  intro key stake voteAccount hget
  rw [getElem?_erase_eq] at hget
  split at hget
  case isTrue => exact absurd hget nofun
  case isFalse => exact h key stake voteAccount hget

section

variable (hrest : ∀ key, key ≠ pubkey → amount key = amount' key)

include hrest

lemma StakesAre.insert (voteAccount : Account δ) :
    StakesAre (accounts.insert pubkey (amount' pubkey, voteAccount)) amount' := by
  intro key stake account hget
  rw [getElem?_insert_eq] at hget
  split at hget
  case isTrue heq =>
    cases hget
    rw [heq]
  case isFalse hne =>
    rw [← hrest key hne]
    exact h key stake account hget

lemma StakesAre.of_missing (hnone : accounts[pubkey]? = none) : StakesAre accounts amount' := by
  intro key stake account hget
  have hne : key ≠ pubkey := by
    rintro rfl
    exact absurd (hnone.symm.trans hget) nofun
  rw [← hrest key hne]
  exact h key stake account hget

end

end

end StakesAre

variable (env) in
/-- Every vote account carries the stake of its key, and the cell tallies the carried
stakes. -/
structure Carries (va : VoteAccounts δ) (amount : Pubkey → Nat) : Prop where
  stakes : StakesAre va.voteAccounts amount
  cell : CellTallies va (nodeStake env va.voteAccounts)

section Carries

lemma Carries.congr (h : Carries env va amount)
    (heq : ∀ pubkey, amount pubkey = amount' pubkey) : Carries env va amount' :=
  funext heq ▸ h

lemma carries_of_stakes (h : StakesAre accounts amount) : Carries env ⟨accounts, none⟩ amount :=
  ⟨h, fun _ hcell => absurd hcell nofun⟩

lemma Carries.remove (h : Carries env va amount) (pubkey : Pubkey) :
    ∃ va', va.remove env pubkey = some (va.voteAccounts[pubkey]?, va') ∧
      va'.voteAccounts = va.voteAccounts.erase pubkey ∧ Carries env va' amount := by
  unfold VoteAccounts.remove
  rcases hget : va.voteAccounts[pubkey]? with _ | ⟨stake, voteAccount⟩
  · have hcell := h.cell.congr fun node => (nodeStake_erase_of_none hget node).symm
    exact ⟨_, rfl, rfl, h.stakes.erase pubkey, hcell⟩
  · have hcell := h.cell.congr (nodeStake_of_getElem? hget)
    obtain ⟨va', hsub, haccounts, hcell'⟩ :=
      subNodeStake_spec (hcell.withAccounts (va.voteAccounts.erase pubkey))
    refine ⟨va', ?_, haccounts, haccounts ▸ h.stakes.erase pubkey, haccounts ▸ hcell'⟩
    simp [hsub]

lemma Carries.insert (h : Carries env va amount) (hnew : va.voteAccounts[pubkey]? = none)
    (voteAccount : Account δ) :
    ∃ va', va.insert env pubkey (amount pubkey, voteAccount) = some va' ∧
      Carries env va' amount := by
  unfold VoteAccounts.insert
  simp only [hnew, addNodeStake_voteAccounts]
  refine ⟨_, rfl, h.stakes.insert (fun _ _ => rfl) voteAccount, ?_⟩
  refine ((h.cell.addNodeStake (amount pubkey) voteAccount).congr fun node => ?_).withAccounts _
  rw [nodeStake_insert, nodeStake_erase_of_none hnew]

/-- What a delegation of the given stake adds to the stake of a voter. -/
def share (voter : Pubkey) (stake : Nat) (pubkey : Pubkey) : Nat :=
  if voter = pubkey then stake else 0

lemma share_self (voter : Pubkey) (stake : Nat) : share voter stake voter = stake :=
  if_pos rfl

lemma add_share_of_ne (h : pubkey ≠ voter) (stake n : Nat) : n + share voter stake pubkey = n := by
  rw [share, if_neg (Ne.symm h), Nat.add_zero]

lemma nodeStake_exchange {stake' gain loss : Nat}
    (hget : accounts[voter]? = some (stake, voteAccount)) (hstake : stake + gain = stake' + loss)
    (node : Pubkey) :
    nodeStake env accounts node + nodeCredit env gain voteAccount node =
      nodeStake env (accounts.insert voter (stake', voteAccount)) node +
        nodeCredit env loss voteAccount node := by
  rw [nodeStake_insert, nodeStake_of_getElem? hget, Nat.add_assoc, Nat.add_assoc]
  unfold nodeCredit
  split
  · rw [hstake]
  · rfl

lemma Carries.addStake (h : Carries env va amount) (voter : Pubkey) (delta : Nat) :
    Carries env (va.addStake env voter delta)
      (fun pubkey => amount pubkey + share voter delta pubkey) := by
  have hrest (key : Pubkey) (hne : key ≠ voter) :
      amount key = amount key + share voter delta key := (add_share_of_ne hne _ _).symm
  unfold VoteAccounts.addStake
  split
  case h_1 stake voteAccount hget =>
    obtain rfl : stake = amount voter := h.stakes voter stake voteAccount hget
    constructor
    · rw [addNodeStake_voteAccounts]
      have hstakes := h.stakes.insert hrest voteAccount
      rwa [share_self] at hstakes
    · rw [addNodeStake_voteAccounts]
      refine ((h.cell.withAccounts _).addNodeStake delta voteAccount).congr fun node => ?_
      rw [nodeStake_exchange hget (Nat.add_zero _).symm, nodeCredit_zero, Nat.add_zero]
  case h_2 hget => exact ⟨h.stakes.of_missing hrest hget, h.cell⟩

lemma Carries.subStake {delta : Nat}
    (h : Carries env va (fun pubkey => amount pubkey + share voter delta pubkey)) :
    ∃ va', va.subStake env voter delta = some va' ∧ Carries env va' amount := by
  have hrest (key : Pubkey) (hne : key ≠ voter) :
      amount key + share voter delta key = amount key := add_share_of_ne hne _ _
  unfold VoteAccounts.subStake
  split
  case h_1 stake voteAccount hget =>
    obtain rfl : stake = amount voter + delta :=
      (h.stakes voter stake voteAccount hget).trans (congrArg _ (share_self voter delta))
    have hchecked : checkedSub (amount voter + delta) delta = some (amount voter) :=
      checkedSub_eq_some.2 ⟨Nat.le_add_left _ _, (Nat.add_sub_cancel ..).symm⟩
    have hcell := h.cell.congr fun node => by
      rw [← Nat.add_zero (nodeStake ..), ← nodeCredit_zero voteAccount,
        nodeStake_exchange hget (Nat.add_zero _)]
    obtain ⟨va', hsub, haccounts, hcell'⟩ := subNodeStake_spec
      (hcell.withAccounts (va.voteAccounts.insert voter (amount voter, voteAccount)))
    refine ⟨va', ?_, haccounts ▸ h.stakes.insert hrest voteAccount, haccounts ▸ hcell'⟩
    simp [hchecked, hsub]
  case h_2 hget => exact ⟨va, rfl, h.stakes.of_missing hrest hget, h.cell⟩

end Carries

def stakeOfVoter (stake : Delegation → Nat) (delegations : List (StakeAccount δ))
    (voter : Pubkey) : Nat :=
  (delegations.map fun a => share a.delegation.voterPubkey (stake a.delegation) voter).sum

variable (stake : Delegation → Nat)

lemma stakeOfVoter_flatten (parts : List (List (StakeAccount δ))) (voter : Pubkey) :
    stakeOfVoter stake parts.flatten voter = (parts.map (stakeOfVoter stake · voter)).sum := by
  unfold stakeOfVoter
  rw [map_flatten, sum_flatten, map_map]
  rfl

lemma getD_foldl_delegations (part : List (StakeAccount δ)) (voter : Pubkey) :
    ((part.foldl (fun (stakes : TreeMap Pubkey Nat) a =>
        addTo stakes a.delegation.voterPubkey (stake a.delegation)) ∅)[voter]?).getD 0 =
      stakeOfVoter stake part voter := by
  have hpaid := getD_foldl_addTo
    (part.map fun a => (a.delegation.voterPubkey, stake a.delegation))
    (∅ : TreeMap Pubkey Nat) voter
  rw [foldl_map] at hpaid
  rw [hpaid]
  simp [paidTo, stakeOfVoter, share, Function.comp_def]

lemma getD_mergeStakes (stakes other : TreeMap Pubkey Nat) (voter : Pubkey) :
    ((Stakes.mergeStakes stakes other)[voter]?).getD 0 =
      (stakes[voter]?).getD 0 + (other[voter]?).getD 0 := by
  unfold Stakes.mergeStakes
  split
  case h_1 into rest hswap =>
    rw [getD_foldl_addTo, paidTo_toList]
    split at hswap
    · cases hswap
      exact Nat.add_comm _ _
    · cases hswap
      rfl

lemma getD_foldl_mergeStakes (parts : List (TreeMap Pubkey Nat)) (stakes : TreeMap Pubkey Nat)
    (voter : Pubkey) :
    ((parts.foldl Stakes.mergeStakes stakes)[voter]?).getD 0 =
      (stakes[voter]?).getD 0 + (parts.map fun part => (part[voter]?).getD 0).sum := by
  induction parts generalizing stakes with
  | nil => simp
  | cons part parts ih =>
    rw [foldl_cons, ih, getD_mergeStakes, map_cons, sum_cons, Nat.add_assoc]

lemma carries_refreshVoteAccounts (pool : WorkSplit (StakeAccount δ)) (va : VoteAccounts δ)
    (delegations : List (StakeAccount δ)) :
    Carries env (Stakes.refreshVoteAccounts stake pool va delegations)
      (stakeOfVoter stake delegations) := by
  refine carries_of_stakes fun voter s voteAccount hget => ?_
  rw [TreeMap.getElem?_map, Option.map_eq_some_iff] at hget
  obtain ⟨⟨s', account⟩, -, heq⟩ := hget
  rw [← (Prod.mk.inj heq).1, getD_foldl_mergeStakes, map_map]
  conv_rhs => rw [← pool.flatten_split delegations, stakeOfVoter_flatten]
  simp [Function.comp_def, getD_foldl_delegations]

/-- The stake of a voter: the sum over the cached delegations to it. -/
def delegatedStake (env : StakesEnv δ) (stakes : Stakes δ) (rate : Option Epoch)
    (voter : Pubkey) : Nat :=
  total stakes.stakeDelegations fun _ a =>
    share a.delegation.voterPubkey (stakes.stakeOf env rate a.delegation) voter

/-- The vote accounts of the cache carry what the delegations of the cache give them. -/
def Exact (env : StakesEnv δ) (rate : Option Epoch) (stakes : Stakes δ) : Prop :=
  Carries env stakes.voteAccounts (delegatedStake env stakes rate)

section Exact

variable {stakes : Stakes δ} {rate : Option Epoch}

lemma stakeOfVoter_values (stake : Delegation → Nat)
    (delegations : TreeMap Pubkey (StakeAccount δ)) (voter : Pubkey) :
    stakeOfVoter stake (delegations.toList.map Prod.snd) voter =
      total delegations fun _ a => share a.delegation.voterPubkey (stake a.delegation) voter := by
  unfold stakeOfVoter
  rw [map_map]
  rfl

lemma calculateStake_eq (voter : Pubkey) :
    stakes.calculateStake env voter rate = delegatedStake env stakes rate voter := by
  unfold Stakes.calculateStake delegatedStake total share
  rw [sum_map_ite]
  simp [filter_map, Function.comp_def]

lemma exact_empty (epoch : Epoch) (history : StakeHistory) :
    Exact env rate (Stakes.empty epoch history : Stakes δ) :=
  carries_of_stakes fun voter stake voteAccount h => by simp at h

variable (pool : WorkSplit (StakeAccount δ))

lemma exact_activateEpoch (nextEpoch : Epoch) :
    Exact env rate (stakes.activateEpoch env pool nextEpoch rate) :=
  (carries_refreshVoteAccounts
    ((stakes.activateEpoch env pool nextEpoch rate).stakeOf env rate) pool stakes.voteAccounts
    (stakes.stakeDelegations.toList.map Prod.snd)).congr (stakeOfVoter_values _ _)

lemma exact_updateStakeAccounts (rewards : List (Pubkey × Account δ)) :
    Exact env rate (stakes.updateStakeAccounts env pool rewards rate) :=
  (carries_refreshVoteAccounts ..).congr (stakeOfVoter_values _ _)

section

variable (h : Exact env rate stakes)

include h

variable (votePubkey : Pubkey)

lemma Exact.removeVoteAccount :
    ∃ stakes', stakes.removeVoteAccount env votePubkey = some stakes' ∧
      Exact env rate stakes' := by
  obtain ⟨va, hremove, -, hva⟩ := Carries.remove h votePubkey
  refine ⟨{ stakes with voteAccounts := va }, ?_, hva⟩
  simp [Stakes.removeVoteAccount, hremove]

lemma Exact.upsertVoteAccount (hlamports : voteAccount.lamports ≠ 0) :
    ∃ stakes', stakes.upsertVoteAccount env votePubkey voteAccount rate = some stakes' ∧
      Exact env rate stakes' := by
  obtain ⟨removed, hremove, haccounts, hremoved⟩ := Carries.remove h votePubkey
  -- a replaced account hands its stake on; a new one is given the sum over the delegations
  have hstake : ((stakes.voteAccounts.voteAccounts[votePubkey]?).map Prod.fst).getD
      (stakes.calculateStake env votePubkey rate) = delegatedStake env stakes rate votePubkey := by
    rcases hget : stakes.voteAccounts.voteAccounts[votePubkey]? with _ | ⟨stake, old⟩
    · exact calculateStake_eq votePubkey
    · exact h.stakes votePubkey stake old hget
  have hnew : removed.voteAccounts[votePubkey]? = none := by
    rw [haccounts, getElem?_erase_eq, if_pos rfl]
  obtain ⟨va, hinsert, hva⟩ := hremoved.insert hnew voteAccount
  refine ⟨{ stakes with voteAccounts := va }, ?_, hva⟩
  simp [Stakes.upsertVoteAccount, hlamports, hremove, hstake, hinsert]

lemma Exact.removeStakeDelegation (stakePubkey : Pubkey) :
    ∃ stakes', stakes.removeStakeDelegation env stakePubkey rate = some stakes' ∧
      Exact env rate stakes' := by
  unfold Stakes.removeStakeDelegation
  split
  case h_1 => exact ⟨stakes, rfl, h⟩
  case h_2 stakeAccount hget =>
    have hsplit := h.congr fun voter =>
      (total_of_getElem?_eq_some hget _).trans (Nat.add_comm _ _)
    obtain ⟨va, hsub, hva⟩ := hsplit.subStake
    refine ⟨{ stakes with
      stakeDelegations := stakes.stakeDelegations.erase stakePubkey
      voteAccounts := va }, ?_, hva⟩
    simp [hsub]

end

lemma moveStake_some_spec {rest : Pubkey → Nat} {old new : Delegation}
    (h : Carries env stakes.voteAccounts
      (fun voter => rest voter + share old.voterPubkey (stakes.stakeOf env rate old) voter)) :
    ∃ va, stakes.moveStake env rate (some old) new = some va ∧ Carries env va
      (fun voter => rest voter + share new.voterPubkey (stakes.stakeOf env rate new) voter) := by
  unfold Stakes.moveStake
  dsimp only
  split
  case isTrue =>
    obtain ⟨va, hsub, hva⟩ := h.subStake
    exact ⟨_, by rw [hsub, Option.map_some], hva.addStake new.voterPubkey _⟩
  case isFalse hsame =>
    obtain ⟨hvoter, hstake⟩ := not_or.1 hsame
    rw [not_not.1 hvoter, not_not.1 hstake]
    exact ⟨_, rfl, h⟩

section

variable (h : Exact env rate stakes)

include h

variable (stakePubkey : Pubkey)

lemma Exact.moveStake (new : Delegation) :
    ∃ va, stakes.moveStake env rate
        ((stakes.stakeDelegations[stakePubkey]?).map StakeAccount.delegation) new = some va ∧
      Carries env va (fun voter => total (stakes.stakeDelegations.erase stakePubkey) (fun _ a =>
          share a.delegation.voterPubkey (stakes.stakeOf env rate a.delegation) voter) +
        share new.voterPubkey (stakes.stakeOf env rate new) voter) := by
  rcases hget : stakes.stakeDelegations[stakePubkey]? with _ | old
  · have hrest := h.congr fun voter => (total_erase_of_getElem?_eq_none hget _).symm
    exact ⟨_, rfl, hrest.addStake _ _⟩
  · have hrest := h.congr fun voter =>
      (total_of_getElem?_eq_some hget _).trans (Nat.add_comm _ _)
    exact moveStake_some_spec hrest

lemma Exact.upsertStakeDelegation
    {stakeAccount : StakeAccount δ} (hlamports : stakeAccount.account.lamports ≠ 0) :
    ∃ stakes', stakes.upsertStakeDelegation env stakePubkey stakeAccount rate = some stakes' ∧
      Exact env rate stakes' := by
  obtain ⟨va, hmove, hva⟩ := h.moveStake stakePubkey stakeAccount.delegation
  refine ⟨{ stakes with
    stakeDelegations := stakes.stakeDelegations.insert stakePubkey stakeAccount
    voteAccounts := va }, ?_, hva.congr fun voter => ?_⟩
  · simp [Stakes.upsertStakeDelegation, hlamports, hmove]
  · rw [delegatedStake, total_insert, Nat.add_comm]
    rfl

lemma Exact.checkAndStore (pubkey : Pubkey) (account : Account δ) :
    ∃ stakes', stakes.checkAndStore env pubkey account rate = some stakes' ∧
      Exact env rate stakes' := by
  unfold Stakes.checkAndStore
  by_cases hlamports : account.lamports = 0
  · rw [if_pos hlamports]
    split
    · exact h.removeVoteAccount pubkey
    · split
      · exact h.removeStakeDelegation pubkey
      · exact ⟨stakes, rfl, h⟩
  rw [if_neg hlamports]
  split
  · split
    · split
      case h_1 voteAccount hfrom =>
        obtain ⟨-, ⟨⟩⟩ := Option.ite_none_right_eq_some.1 hfrom
        exact h.upsertVoteAccount pubkey hlamports
      case h_2 => exact h.removeVoteAccount pubkey
    · exact h.removeVoteAccount pubkey
  · split
    · split
      case h_1 stakeAccount hfrom =>
        obtain ⟨-, hdelegation⟩ := Option.ite_none_right_eq_some.1 hfrom
        obtain ⟨delegation, -, rfl⟩ := Option.map_eq_some_iff.1 hdelegation
        exact h.upsertStakeDelegation pubkey hlamports
      case h_2 => exact h.removeStakeDelegation pubkey
    · exact ⟨stakes, rfl, h⟩

lemma Exact.handleInvalidKeys (invalidVoteKeys : List Pubkey) :
    ∃ stakes', stakes.handleInvalidKeys env invalidVoteKeys = some stakes' ∧
      Exact env rate stakes' :=
  ExceptLoops.foldlM_invariant (Exact env rate)
    (fun votePubkey _ _ hinv => hinv.removeVoteAccount votePubkey) h

end

lemma paidTo_nodePayments (entries : List (Nat × Account δ)) (node : Pubkey) :
    paidTo (nodePayments env entries) node =
      (entries.map fun entry => nodeCredit env entry.1 entry.2 node).sum := by
  induction entries with
  | nil => rfl
  | cons entry entries ih =>
    rw [map_cons, sum_cons, ← ih]
    unfold nodePayments
    by_cases h0 : entry.1 = 0
    · rw [filter_cons_of_neg (by simpa using h0), h0, nodeCredit_zero, Nat.zero_add]
    rw [filter_cons_of_pos (by simpa using h0)]
    rcases howner : env.nodePubkey entry.2.data with _ | owner
    · rw [filterMap_cons_none (by rw [howner, Option.map_none]), nodeCredit_none howner,
        Nat.zero_add]
    · rw [filterMap_cons_some (by rw [howner, Option.map_some]), paidTo_cons,
        nodeCredit_some howner]

lemma tallies_groupStakes (accounts : TreeMap Pubkey (Nat × Account δ)) :
    Tallies (groupStakes env accounts) (nodeStake env accounts) := by
  have hpos : ∀ p ∈ nodePayments env (accounts.toList.map Prod.snd), p.2 ≠ 0 := by
    intro p hp
    obtain ⟨entry, hentry, hp⟩ := mem_filterMap.1 hp
    obtain ⟨node, -, rfl⟩ := Option.map_eq_some_iff.1 hp
    simpa using (mem_filter.1 hentry).2
  have hempty : Tallies (∅ : TreeMap Pubkey Nat) (fun _ => 0) := fun node => by simp
  have hpaid (node : Pubkey) :
      0 + paidTo (nodePayments env (accounts.toList.map Prod.snd)) node =
        nodeStake env accounts node := by
    rw [Nat.zero_add, paidTo_nodePayments, map_map]
    rfl
  exact funext hpaid ▸ hempty.foldl_addTo hpos

lemma stakedNodes_tallies (h : Exact env rate stakes) :
    Tallies (stakes.stakedNodes env).1 (nodeStake env stakes.voteAccounts.voteAccounts) := by
  unfold Stakes.stakedNodes stakedNodes
  rcases hcell : stakes.voteAccounts.stakedNodesCell with _ | nodes
  · exact tallies_groupStakes _
  · exact h.cell nodes hcell

lemma Exact.stakedNodes (h : Exact env rate stakes) :
    Exact env rate (stakes.stakedNodes env).2 := by
  unfold Stakes.stakedNodes VoteAccounts.stakedNodes
  rcases hcell : stakes.voteAccounts.stakedNodesCell with _ | nodes
  · refine ⟨h.stakes, ?_⟩
    rintro _ ⟨⟩
    exact tallies_groupStakes _
  · exact h

end Exact

lemma stakesStep_exact {s : CacheState δ} (h : Exact env s.rate s.stakes) (call : StakesCall δ) :
    ∃ s', stakesStep env s call = some s' ∧ Exact env s'.rate s'.stakes := by
  cases call with
  | checkAndStore pubkey account =>
    obtain ⟨stakes, hstore, hexact⟩ := h.checkAndStore pubkey account
    exact ⟨{ s with stakes := stakes }, by simp [stakesStep, hstore], hexact⟩
  | handleInvalidKeys keys =>
    obtain ⟨stakes, hkeys, hexact⟩ := h.handleInvalidKeys keys
    exact ⟨{ s with stakes := stakes }, by simp [stakesStep, hkeys], hexact⟩
  | activateEpoch pool nextEpoch rate =>
    exact ⟨_, rfl, exact_activateEpoch pool nextEpoch⟩
  | updateStakeAccounts pool rewards =>
    exact ⟨_, rfl, exact_updateStakeAccounts pool rewards⟩
  | stakedNodes => exact ⟨_, rfl, h.stakedNodes⟩

/-- No step of the cache panics; every cached vote account carries the sum of the stakes of the
cached delegations to it, and the staked nodes are the sums of these by node, without a zero entry.
-/
theorem stakesRun_exact (env : StakesEnv δ) (epoch : Epoch) (history : StakeHistory)
    (rate : Option Epoch) (calls : List (StakesCall δ)) :
    ∃ s, stakesRun env ⟨Stakes.empty epoch history, rate⟩ calls = some s ∧
      (∀ voter stake voteAccount,
        s.stakes.voteAccounts.voteAccounts[voter]? = some (stake, voteAccount) →
          stake = delegatedStake env s.stakes s.rate voter) ∧
      ∀ node, (s.stakes.stakedNodes env).1[node]? =
        if nodeStake env s.stakes.voteAccounts.voteAccounts node = 0 then none
        else some (nodeStake env s.stakes.voteAccounts.voteAccounts node) := by
  obtain ⟨s, hrun, hexact⟩ := ExceptLoops.foldlM_invariant
    (fun s : CacheState δ => Exact env s.rate s.stakes)
    (fun call _ _ hinv => stakesStep_exact hinv call)
    (s := ⟨Stakes.empty epoch history, rate⟩) (exact_empty epoch history)
  exact ⟨s, hrun, hexact.stakes, stakedNodes_tallies hexact⟩

end Nuah.Proofs
