import Nuah.StakeRewards

/-!
# Delegated stake is backed by lamports

A stake account that is not deactivated holds its rent-exempt reserve and its whole
delegation in lamports. The states are written before the lamports move, so a written state
is backed by the balance that the account is about to have.
-/

namespace Nuah.Proofs

open StakeStateV2 BorrowedAccount MergeKind

variable {voteKey toKey sourceKey : Pubkey} {custodianKey : Option Pubkey}
  {info : ValidatedSplitInfo} {balance staker voter : Nat} {rewardedEpoch : Epoch}
  {pointValue : PointValue} {w : WarmupParams} {rent : Rent}

variable {account : Account ProgramData} {m : Meta} {stake stake' : Stake} {voteState : VoteState}
  {flags : StakeFlags} {withdrawAuthority : Pubkey}

/-- The state is that of an account with the reserve and is backed by the lamports. -/
def StateBacked (reserve lamports : Nat) : StakeStateV2 → Prop
  | .initialized m => m.rentExemptReserve = reserve
  | .stake m stake _ => m.rentExemptReserve = reserve ∧
      (stake.delegation.deactivationEpoch = u64Max → reserve + stake.delegation.stake ≤ lamports)
  | _ => True

/-- If the account is a stake account, then its state is backed by the lamports. -/
def BackedBy (reserve lamports : Nat) (account : Account ProgramData) : Prop :=
  account.owner = stakeProgramId →
    ∀ state, account.data.content = .stake state → StateBacked reserve lamports state

def Backed (reserve : Nat) (accounts : StakeAccounts) : Prop :=
  ∀ key, BackedBy reserve (accounts key).lamports (accounts key)

variable {reserve lamports lamports' : Nat} {ctx : StakeContext}
  {accounts accounts' : StakeAccounts} {key stakeKey : Pubkey} {state : StakeStateV2}

lemma StateBacked.mono (h : StateBacked reserve lamports state) (hle : lamports ≤ lamports') :
    StateBacked reserve lamports' state := by
  cases state with
  | stake m stake flags => exact ⟨h.1, fun hd => (h.2 hd).trans hle⟩
  | initialized m => exact h
  | uninitialized => trivial
  | rewardsPool => trivial

lemma BackedBy.mono (h : BackedBy reserve lamports account) (hle : lamports ≤ lamports') :
    BackedBy reserve lamports' account :=
  fun howner state hstate => (h howner state hstate).mono hle

lemma Backed.update (h : Backed reserve accounts) (ha : BackedBy reserve account.lamports account) :
    Backed reserve (Function.update accounts key account) := by
  intro k
  by_cases hk : k = key
  · subst hk
    simpa using ha
  · simpa [Function.update_of_ne hk] using h k

/-! ## Access to accounts -/

lemma getState_eq_ok : getState account = .ok state ↔ account.data.content = .stake state := by
  unfold getState
  cases account.data.content <;> simp [reject]

def putState (accounts : StakeAccounts) (key : Pubkey) (state : StakeStateV2) : StakeAccounts :=
  Function.update accounts key
    { accounts key with data := { (accounts key).data with content := .stake state } }

@[simp] lemma putState_lamports (k : Pubkey) :
    (putState accounts key state k).lamports = (accounts k).lamports := by
  unfold putState
  by_cases hk : k = key
  · subst hk; simp
  · simp [Function.update_of_ne hk]

lemma putState_of_ne {k : Pubkey} (hk : k ≠ key) : putState accounts key state k = accounts k :=
  Function.update_of_ne hk _ _

lemma backedBy_putState_self :
    BackedBy reserve lamports (putState accounts key state key) ↔
      ((accounts key).owner = stakeProgramId → StateBacked reserve lamports state) := by
  simp [BackedBy, putState]

lemma setState_eq_ok (h : ctx.setState accounts key state = .ok accounts') :
    (accounts key).owner = stakeProgramId ∧ accounts' = putState accounts key state := by
  obtain ⟨_, hchange, h⟩ := bind_eq_ok.1 h
  obtain ⟨-, -, howner⟩ := canDataBeChanged_eq_ok hchange
  split at h
  · cases h
  · refine ⟨?_, (Except.ok.inj h).symm⟩
    simp only [isOwnedByCurrentProgram, StakeContext.borrow, beq_iff_eq,
      Option.some.injEq] at howner
    exact howner.symm

lemma setState_backed (h : Backed reserve accounts)
    (hset : ctx.setState accounts key state = .ok accounts')
    (hstate : StateBacked reserve (accounts key).lamports state) : Backed reserve accounts' := by
  obtain ⟨-, rfl⟩ := setState_eq_ok hset
  exact h.update fun _ s hs => by cases hs; exact hstate

/-! ## Transfers -/

/-- Lamports have moved from the source to the target, which may be the same account, and
nothing else has changed. -/
structure Transferred (accounts accounts' : StakeAccounts) (source target : Pubkey)
    (lamports : Nat) : Prop where
  data_eq : ∀ k, (accounts' k).data = (accounts k).data
  owner_eq : ∀ k, (accounts' k).owner = (accounts k).owner
  lamports_eq : ∀ k, (accounts' k).lamports + (if k = source then lamports else 0) =
    (accounts k).lamports + (if k = target then lamports else 0)

lemma subLamports_eq_ok (h : ctx.subLamports accounts key lamports = .ok accounts') :
    lamports ≤ (accounts key).lamports ∧ accounts' = Function.update accounts key
      { accounts key with lamports := (accounts key).lamports - lamports } := by
  obtain ⟨borrowed, hsub, h⟩ := bind_eq_ok.1 h
  obtain ⟨hle, -, rfl⟩ := checkedSubLamports_eq_ok hsub
  cases h
  exact ⟨hle, rfl⟩

lemma addLamports_eq_ok (h : ctx.addLamports accounts key lamports = .ok accounts') :
    (accounts key).lamports + lamports ≤ u64Max ∧ accounts' = Function.update accounts key
      { accounts key with lamports := (accounts key).lamports + lamports } := by
  obtain ⟨borrowed, hadd, h⟩ := bind_eq_ok.1 h
  obtain ⟨hle, -, rfl⟩ := checkedAddLamports_eq_ok hadd
  cases h
  exact ⟨hle, rfl⟩

variable {source target : Pubkey} {mid : StakeAccounts}

lemma transferred_of_sub_add (hsub : ctx.subLamports accounts source lamports = .ok mid)
    (hadd : ctx.addLamports mid target lamports = .ok accounts') :
    Transferred accounts accounts' source target lamports := by
  obtain ⟨hle, rfl⟩ := subLamports_eq_ok hsub
  obtain ⟨-, rfl⟩ := addLamports_eq_ok hadd
  constructor <;> intro k <;> by_cases ht : k = target <;> by_cases hs : k = source <;>
    simp_all [Function.update_apply]

lemma transferred_of_add_sub (hadd : ctx.addLamports accounts target lamports = .ok mid)
    (hsub : ctx.subLamports mid source lamports = .ok accounts') :
    Transferred accounts accounts' source target lamports := by
  obtain ⟨-, rfl⟩ := addLamports_eq_ok hadd
  obtain ⟨hle, rfl⟩ := subLamports_eq_ok hsub
  constructor <;> intro k <;> by_cases ht : k = target <;> by_cases hs : k = source <;>
    simp_all [Function.update_apply]

lemma Transferred.backedBy (h : Transferred accounts accounts' source target lamports)
    (hb : BackedBy reserve lamports' (accounts key)) :
    BackedBy reserve lamports' (accounts' key) := by
  intro howner state hstate
  rw [h.owner_eq] at howner
  rw [h.data_eq] at hstate
  exact hb howner state hstate

/-- A transfer keeps the accounts backed if the states of its two ends were written for the
balances after it. -/
lemma Transferred.backed (h : Transferred accounts accounts' source target lamports)
    (hother : ∀ k, k ≠ source → k ≠ target → BackedBy reserve (accounts k).lamports (accounts k))
    (hsource : BackedBy reserve ((accounts source).lamports - lamports) (accounts source))
    (htarget : target ≠ source →
      BackedBy reserve ((accounts target).lamports + lamports) (accounts target)) :
    Backed reserve accounts' := by
  intro k
  apply h.backedBy
  have hl := h.lamports_eq k
  by_cases hs : k = source
  · subst hs
    apply hsource.mono
    simp only [if_true] at hl
    split at hl <;> omega
  · by_cases ht : k = target
    · subst ht
      apply (htarget hs).mono
      simp only [if_true, if_neg hs] at hl
      omega
    · apply (hother k hs ht).mono
      simp only [if_neg hs, if_neg ht] at hl
      omega

/-! ## Initialize, delegate, deactivate -/

lemma initializeStake_backed {authorized : Authorized} {lockup : Lockup}
    (h : Backed (ctx.rent.minimumBalance sizeOf) accounts)
    (hok : initializeStake ctx accounts stakeKey authorized lockup = .ok accounts') :
    Backed (ctx.rent.minimumBalance sizeOf) accounts' := by
  obtain ⟨hlen, hok⟩ := ite_reject_eq_ok.1 hok
  obtain ⟨state, -, hok⟩ := bind_eq_ok.1 hok
  cases state with
  | uninitialized =>
    simp only at hok
    split at hok
    · refine setState_backed h hok ?_
      simp only [StateBacked, not_not.1 hlen]
    · cases hok
  | initialized m => cases hok
  | stake m stake flags => cases hok
  | rewardsPool => cases hok

lemma getMinimumDelegation_pos (featureSet : FeatureSet) : 0 < getMinimumDelegation featureSet := by
  unfold getMinimumDelegation
  split <;> decide

lemma validateDelegatedAmount_eq_ok {featureSet : FeatureSet} {stakeAmount : Nat}
    (h : validateDelegatedAmount account m featureSet = .ok stakeAmount) :
    m.rentExemptReserve + stakeAmount = account.lamports := by
  have hpos := getMinimumDelegation_pos featureSet
  obtain ⟨hmin, h⟩ := ite_reject_eq_ok.1 h
  cases h
  omega

/-- A stake that is delegated again has no more stake than there are lamports for it,
whether it is activated anew or its deactivation is rescinded. -/
lemma redelegateStake_stake_le {stakeLamports : Nat} {voterPubkey : Pubkey}
    (hfeature : ctx.featureSet.isActive .stakeRedelegateInstruction = true)
    (h : redelegateStake ctx stake stakeLamports voterPubkey voteState = .ok stake') :
    stake'.delegation.stake ≤ stakeLamports := by
  unfold redelegateStake at h
  split at h
  · simp only at h
    split at h
    · rename_i hrescind
      cases h
      exact of_decide_eq_true hrescind.2.2
    · cases h
  · cases h
    exact le_rfl

lemma delegate_backed (hfeature : ctx.featureSet.isActive .stakeRedelegateInstruction = true)
    (h : Backed reserve accounts) (hok : delegate ctx accounts stakeKey voteKey = .ok accounts') :
    Backed reserve accounts' := by
  obtain ⟨-, hok⟩ := ite_reject_eq_ok.1 hok
  obtain ⟨state, hstate, hok⟩ := bind_eq_ok.1 hok
  have hstate := getState_eq_ok.1 hstate
  cases state with
  | initialized m =>
    simp only [bind_eq_ok] at hok
    obtain ⟨_, -, stakeAmount, hamount, voteState, -, hok⟩ := hok
    obtain ⟨howner, -⟩ := setState_eq_ok hok
    have hm : m.rentExemptReserve = reserve := h stakeKey howner _ hstate
    have hamount := validateDelegatedAmount_eq_ok hamount
    refine setState_backed h hok ⟨hm, fun _ => ?_⟩
    rw [← hm]
    exact hamount.le
  | stake m stake flags =>
    simp only [bind_eq_ok] at hok
    obtain ⟨_, -, stakeAmount, hamount, voteState, -, stake', hstake', hok⟩ := hok
    obtain ⟨howner, -⟩ := setState_eq_ok hok
    have hm : m.rentExemptReserve = reserve := (h stakeKey howner _ hstate).1
    have hamount := validateDelegatedAmount_eq_ok hamount
    have hle := redelegateStake_stake_le hfeature hstake'
    refine setState_backed h hok ⟨hm, fun _ => ?_⟩
    omega
  | uninitialized => cases hok
  | rewardsPool => cases hok

lemma deactivateStake_deactivationEpoch {epoch : Epoch} {result : Stake × StakeFlags}
    (h : deactivateStake ctx stake flags epoch = .ok result) :
    result.1.delegation.deactivationEpoch = epoch := by
  have hdeactivate : ∀ {s s' : Stake}, s.deactivate epoch = .ok s' →
      s'.delegation.deactivationEpoch = epoch := by
    intro s s' hs
    obtain ⟨-, hs⟩ := ite_reject_eq_ok.1 hs
    cases hs
    rfl
  unfold deactivateStake at h
  split at h
  · split at h
    · obtain ⟨-, h⟩ := ite_reject_eq_ok.1 h
      obtain ⟨s, hs, h⟩ := bind_eq_ok.1 h
      cases h
      exact hdeactivate hs
    · obtain ⟨s, hs, h⟩ := bind_eq_ok.1 h
      cases h
      exact hdeactivate hs
  · obtain ⟨s, hs, h⟩ := bind_eq_ok.1 h
    cases h
    exact hdeactivate hs

lemma deactivate_eq_ok (hepoch : ctx.clock.epoch < u64Max) (h : Backed reserve accounts)
    (hok : deactivate ctx accounts stakeKey = .ok accounts') :
    ∃ state, accounts' = putState accounts stakeKey state ∧
      ∀ lamports, StateBacked reserve lamports state := by
  obtain ⟨state, hstate, hok⟩ := bind_eq_ok.1 hok
  cases state with
  | stake m stake flags =>
    obtain ⟨_, -, hok⟩ := bind_eq_ok.1 hok
    obtain ⟨result, hresult, hok⟩ := bind_eq_ok.1 hok
    obtain ⟨howner, rfl⟩ := setState_eq_ok hok
    have hm := (h stakeKey howner _ (getState_eq_ok.1 hstate)).1
    refine ⟨_, rfl, fun lamports => ⟨hm, fun hmax => ?_⟩⟩
    rw [deactivateStake_deactivationEpoch hresult] at hmax
    exact absurd hmax hepoch.ne
  | initialized m => cases hok
  | uninitialized => cases hok
  | rewardsPool => cases hok

/-! ## Withdraw -/

lemma checkedAdd_eq_ok {a b c : Nat} (h : checkedAdd a b = .ok c) : c = a + b :=
  (checkedAddU64_eq_some.1 (okOr_eq_ok.1 h)).2

lemma deinitializeIfDrained_eq_ok
    (h : deinitializeIfDrained ctx accounts key lamports = .ok accounts') :
    lamports = (accounts key).lamports ∧ accounts' = putState accounts key .uninitialized ∨
      lamports ≠ (accounts key).lamports ∧ accounts' = accounts := by
  unfold deinitializeIfDrained at h
  split at h
  · rename_i hdrained
    exact .inl ⟨hdrained, (setState_eq_ok h).2⟩
  · rename_i hdrained
    exact .inr ⟨hdrained, (Except.ok.inj h).symm⟩

lemma withdrawalReserve_of_active {result : Lockup × Nat × Bool}
    (h : withdrawalReserve ctx stakeKey withdrawAuthority (.stake m stake flags) = .ok result)
    (hactive : ctx.clock.epoch < stake.delegation.deactivationEpoch) :
    result.2.1 = stake.delegation.stake + m.rentExemptReserve := by
  obtain ⟨_, -, h⟩ := bind_eq_ok.1 h
  obtain ⟨stakedAndReserve, hsum, h⟩ := bind_eq_ok.1 h
  cases h
  rw [if_neg (not_le.2 hactive)] at hsum
  exact checkedAdd_eq_ok hsum

/-- A withdrawal transfers lamports; it takes all of them and the state with them, or it
leaves the reserve. -/
lemma withdraw_eq_ok
    (hok : withdraw ctx accounts stakeKey lamports toKey withdrawAuthority custodianKey = .ok accounts') :
    ∃ state result mid, (accounts stakeKey).data.content = .stake state ∧
      withdrawalReserve ctx stakeKey withdrawAuthority state = .ok result ∧
      (lamports = (accounts stakeKey).lamports ∧ mid = putState accounts stakeKey .uninitialized ∨
        lamports + result.2.1 ≤ (accounts stakeKey).lamports ∧ mid = accounts) ∧
      Transferred mid accounts' stakeKey toKey lamports := by
  obtain ⟨-, hok⟩ := ite_reject_eq_ok.1 hok
  obtain ⟨state, hstate, hok⟩ := bind_eq_ok.1 hok
  obtain ⟨result, hresult, hok⟩ := bind_eq_ok.1 hok
  obtain ⟨-, hok⟩ := ite_reject_eq_ok.1 hok
  obtain ⟨lamportsAndReserve, hsum, hok⟩ := bind_eq_ok.1 hok
  have hsum := checkedAdd_eq_ok hsum
  obtain ⟨-, hok⟩ := ite_reject_eq_ok.1 hok
  split at hok
  · obtain ⟨_, -, hok⟩ := bind_eq_ok.1 hok
    cases hok
  rename_i hfunds
  obtain ⟨mid, hmid, hok⟩ := bind_eq_ok.1 hok
  obtain ⟨mid', hsub, hadd⟩ := bind_eq_ok.1 hok
  refine ⟨state, result, mid, getState_eq_ok.1 hstate, hresult, ?_,
    transferred_of_sub_add hsub hadd⟩
  rcases deinitializeIfDrained_eq_ok hmid with hdrained | ⟨hne, heq⟩
  · exact .inl hdrained
  · refine .inr ⟨?_, heq⟩
    rw [← hsum]
    exact not_lt.1 fun hlt => hfunds ⟨hne, hlt⟩

lemma withdraw_backed (hepoch : ctx.clock.epoch < u64Max) (h : Backed reserve accounts)
    (hok : withdraw ctx accounts stakeKey lamports toKey withdrawAuthority custodianKey = .ok accounts') :
    Backed reserve accounts' := by
  obtain ⟨state, result, mid, hstate, hresult, hmid, htransfer⟩ := withdraw_eq_ok hok
  have hmidBacked : Backed reserve mid := by
    rcases hmid with ⟨-, rfl⟩ | ⟨-, rfl⟩
    · exact h.update fun _ s hs => by cases hs; trivial
    · exact h
  refine htransfer.backed (fun k _ _ => hmidBacked k) ?_
    (fun _ => (hmidBacked toKey).mono (Nat.le_add_right _ _))
  rcases hmid with ⟨-, rfl⟩ | ⟨hle, rfl⟩
  · exact backedBy_putState_self.2 fun _ => trivial
  · intro howner state' hstate'
    have hb := h stakeKey howner state' hstate'
    cases state' with
    | stake m stake flags =>
      refine ⟨hb.1, fun hmax => ?_⟩
      cases hstate.symm.trans hstate'
      have hactive := withdrawalReserve_of_active hresult (hmax ▸ hepoch)
      have hm := hb.1
      omega
    | initialized m => exact hb
    | uninitialized => trivial
    | rewardsPool => trivial

/-! ## Split -/

variable {splitKey : Pubkey}

lemma validateSplitAmount_eq_ok {destinationKey : Pubkey} {additional : Nat} {isActive : Bool}
    (h : validateSplitAmount ctx accounts sourceKey destinationKey lamports m additional
      isActive = .ok info) :
    lamports ≤ (accounts sourceKey).lamports ∧
      info = ⟨(accounts sourceKey).lamports - lamports,
        ctx.rent.minimumBalance (accounts destinationKey).data.len⟩ ∧
      (lamports ≠ (accounts sourceKey).lamports →
        saturatingAddU64 m.rentExemptReserve additional ≤ (accounts sourceKey).lamports - lamports ∧
        (isActive = true → ctx.rent.minimumBalance (accounts destinationKey).data.len ≤
          (accounts destinationKey).lamports)) := by
  simp only [validateSplitAmount, ite_reject_eq_ok] at h
  obtain ⟨-, hle, hsource, hactive, -, h⟩ := h
  refine ⟨not_lt.1 hle, (Except.ok.inj h).symm, fun hne => ⟨by omega, fun hactive' => ?_⟩⟩
  simp only [hactive', true_and] at hactive
  omega

lemma Stake.split_eq_ok {delta amount : Nat} {result : Stake × Stake}
    (h : stake.split delta amount = .ok result) :
    delta ≤ stake.delegation.stake ∧
      result = (stake.withStake (stake.delegation.stake - delta), stake.withStake amount) := by
  obtain ⟨hle, h⟩ := ite_reject_eq_ok.1 h
  exact ⟨not_lt.1 hle, (Except.ok.inj h).symm⟩

/-- What a split of the stake gives the split account, and what it leaves in the source. -/
structure SplitAmounts (ctx : StakeContext) (m : Meta) (stake : Stake)
    (balance splitBalance lamports rest amount : Nat) : Prop where
  min_le : getMinimumDelegation ctx.featureSet ≤ amount
  covered : m.rentExemptReserve + amount ≤ splitBalance + lamports
  total : lamports = balance →
    amount = lamports - m.rentExemptReserve ∧ rest + amount = stake.delegation.stake
  part : lamports ≠ balance → lamports < balance ∧ rest + lamports = stake.delegation.stake ∧
    getMinimumDelegation ctx.featureSet ≤ rest ∧ amount ≤ lamports ∧
    saturatingAddU64 m.rentExemptReserve (getMinimumDelegation ctx.featureSet) ≤
      balance - lamports ∧
    (0 < (getStakeStatus ctx stake).effective → amount = lamports)

lemma splitStates_stake_eq_ok
    (hreserve : ctx.rent.minimumBalance (accounts splitKey).data.len = m.rentExemptReserve)
    (hok : splitStates ctx accounts stakeKey splitKey lamports (.stake m stake flags) =
      .ok accounts') :
    ∃ rest amount, SplitAmounts ctx m stake (accounts stakeKey).lamports
        (accounts splitKey).lamports lamports rest amount ∧
      accounts' = putState (putState accounts stakeKey (.stake m (stake.withStake rest) flags))
        splitKey (.stake m (stake.withStake amount) flags) := by
  simp only [splitStates, bind_eq_ok] at hok
  obtain ⟨_, -, info, hinfo, ⟨delta, amount⟩, hamounts, hok⟩ := hok
  obtain ⟨hmin, hok⟩ := ite_reject_eq_ok.1 hok
  obtain ⟨stakes, hstakes, hok⟩ := bind_eq_ok.1 hok
  obtain ⟨mid, hsource, hsplit⟩ := bind_eq_ok.1 hok
  obtain ⟨hdelta, rfl⟩ := Stake.split_eq_ok hstakes
  obtain ⟨hle, rfl, hpart⟩ := validateSplitAmount_eq_ok hinfo
  obtain ⟨-, rfl⟩ := setState_eq_ok hsource
  obtain ⟨-, rfl⟩ := setState_eq_ok hsplit
  have hpos := getMinimumDelegation_pos ctx.featureSet
  refine ⟨_, amount, ?_, by rw [hreserve]⟩
  simp only [splitStakeAmounts, hreserve] at hamounts
  split at hamounts
  · rename_i hdrained
    cases hamounts
    exact ⟨not_lt.1 hmin, by omega, fun _ => ⟨rfl, by omega⟩, fun hne => absurd (by omega) hne⟩
  · obtain ⟨hrest, hamounts⟩ := ite_reject_eq_ok.1 hamounts
    cases hamounts
    refine ⟨not_lt.1 hmin, by omega, fun heq => by omega, fun hne => ?_⟩
    obtain ⟨hkept, hactive⟩ := hpart hne
    refine ⟨by omega, by omega, not_lt.1 hrest, Nat.sub_le _ _, hkept, fun heffective => ?_⟩
    have hfunded := hactive (decide_eq_true heffective)
    omega

/-- The states that a split writes are backed by the balances after it. -/
structure SplitWritten (reserve lamports : Nat) (accounts accounts' : StakeAccounts)
    (stakeKey splitKey : Pubkey) : Prop where
  lamports_eq : ∀ k, (accounts' k).lamports = (accounts k).lamports
  other : ∀ k, k ≠ stakeKey → k ≠ splitKey → accounts' k = accounts k
  split_backed : BackedBy reserve ((accounts splitKey).lamports + lamports) (accounts' splitKey)
  source_backed : lamports ≠ (accounts stakeKey).lamports →
    BackedBy reserve ((accounts stakeKey).lamports - lamports) (accounts' stakeKey)

lemma splitStates_stake_written
    (hreserve : ctx.rent.minimumBalance (accounts splitKey).data.len = reserve)
    (hne : stakeKey ≠ splitKey)
    (hb : StateBacked reserve (accounts stakeKey).lamports (.stake m stake flags))
    (hok : splitStates ctx accounts stakeKey splitKey lamports (.stake m stake flags) =
      .ok accounts') :
    SplitWritten reserve lamports accounts accounts' stakeKey splitKey := by
  obtain ⟨hm, hb⟩ := hb
  obtain ⟨rest, amount, hamounts, rfl⟩ := splitStates_stake_eq_ok (hreserve.trans hm.symm) hok
  constructor
  · intro k
    simp
  · intro k hk hk'
    rw [putState_of_ne hk', putState_of_ne hk]
  · exact backedBy_putState_self.2 fun _ => ⟨hm, fun _ => hm ▸ hamounts.covered⟩
  · intro hpartial
    obtain ⟨hlt, hrest, -⟩ := hamounts.part hpartial
    rw [putState_of_ne hne]
    refine backedBy_putState_self.2 fun _ => ⟨hm, fun hmax => ?_⟩
    have hbacked := hb hmax
    simp only [Stake.withStake]
    omega

lemma splitStates_written (hreserve : ctx.rent.minimumBalance (accounts splitKey).data.len = reserve)
    (howner : (accounts stakeKey).owner = stakeProgramId) (h : Backed reserve accounts)
    (hsplit : (accounts splitKey).data.content = .stake .uninitialized)
    (hstate : (accounts stakeKey).data.content = .stake state)
    (hok : splitStates ctx accounts stakeKey splitKey lamports state = .ok accounts') :
    SplitWritten reserve lamports accounts accounts' stakeKey splitKey := by
  have hb := h stakeKey howner state hstate
  cases state with
  | stake m stake flags =>
    refine splitStates_stake_written hreserve ?_ hb hok
    rintro rfl
    cases hsplit.symm.trans hstate
  | initialized m =>
    have hne : stakeKey ≠ splitKey := by
      rintro rfl
      cases hsplit.symm.trans hstate
    obtain ⟨_, -, hok⟩ := bind_eq_ok.1 hok
    obtain ⟨info, hinfo, hok⟩ := bind_eq_ok.1 hok
    obtain ⟨-, rfl, -⟩ := validateSplitAmount_eq_ok hinfo
    obtain ⟨-, rfl⟩ := setState_eq_ok hok
    constructor
    · intro k
      simp
    · intro k _ hk'
      rw [putState_of_ne hk']
    · exact backedBy_putState_self.2 fun _ => hreserve
    · intro _ _ s hs
      rw [putState_of_ne hne, hstate] at hs
      cases hs
      exact hb
  | uninitialized =>
    simp only [splitStates] at hok
    split at hok
    · cases hok
    cases hok
    exact ⟨fun _ => rfl, fun _ _ _ => rfl, fun _ s hs => by cases hsplit.symm.trans hs; trivial,
      fun _ _ s hs => by cases hstate.symm.trans hs; trivial⟩
  | rewardsPool => cases hok

/-- A split writes the states, and deinitializes a source that it drains, before it moves the
lamports. -/
lemma split_eq_ok (hok : split ctx accounts stakeKey lamports splitKey = .ok accounts') :
    ∃ state written mid, (accounts splitKey).data.len = sizeOf ∧
      (accounts splitKey).data.content = .stake .uninitialized ∧
      (accounts stakeKey).data.content = .stake state ∧
      splitStates ctx accounts stakeKey splitKey lamports state = .ok written ∧
      deinitializeIfDrained ctx written stakeKey lamports = .ok mid ∧
      Transferred mid accounts' stakeKey splitKey lamports := by
  simp only [split, ite_reject_eq_ok, bind_eq_ok, getState_eq_ok] at hok
  obtain ⟨-, hlen, _, hsplit, huninit, -, state, hstate, written, hwritten, mid, hmid, _, hadd,
    hsub⟩ := hok
  exact ⟨state, written, mid, not_not.1 hlen, not_not.1 huninit ▸ hsplit, hstate, hwritten, hmid,
    transferred_of_add_sub hadd hsub⟩

lemma split_backed (howner : (accounts stakeKey).owner = stakeProgramId)
    (h : Backed (ctx.rent.minimumBalance sizeOf) accounts)
    (hok : split ctx accounts stakeKey lamports splitKey = .ok accounts') :
    Backed (ctx.rent.minimumBalance sizeOf) accounts' := by
  obtain ⟨state, written, mid, hlen, hsplit, hstate, hwritten, hmid, htransfer⟩ := split_eq_ok hok
  have hw := splitStates_written (by rw [hlen]) howner h hsplit hstate hwritten
  rcases deinitializeIfDrained_eq_ok hmid with ⟨-, rfl⟩ | ⟨hne, rfl⟩
  · refine htransfer.backed (fun k hs ht => ?_) (backedBy_putState_self.2 fun _ => trivial)
      (fun hne => ?_)
    · rw [putState_of_ne hs, hw.other k hs ht]
      exact h k
    · rw [putState_of_ne hne, hw.lamports_eq]
      exact hw.split_backed
  · rw [hw.lamports_eq] at hne
    refine htransfer.backed (fun k hs ht => ?_) ?_ fun _ => ?_
    · rw [hw.other k hs ht]
      exact h k
    · rw [hw.lamports_eq]
      exact hw.source_backed hne
    · rw [hw.lamports_eq]
      exact hw.split_backed

/-! ## Merge -/

def KindBacked (reserve lamports : Nat) : MergeKind → Prop
  | .inactive _ kindLamports _ => kindLamports = lamports
  | .activationEpoch m stake flags => StateBacked reserve lamports (.stake m stake flags)
  | .fullyActive m stake => StateBacked reserve lamports (.stake m stake .empty)

lemma getIfMergeable_backed {kind : MergeKind} (hb : StateBacked reserve lamports state)
    (h : getIfMergeable ctx state lamports = .ok kind) :
    KindBacked reserve lamports kind := by
  cases state with
  | stake m stake flags =>
    unfold getIfMergeable at h
    simp only at h
    split at h
    · split at h
      · cases h
        rfl
      · cases h
        exact hb
    · split at h
      · cases h
        exact hb
      · cases h
  | initialized m =>
    cases h
    rfl
  | uninitialized => cases h
  | rewardsPool => cases h

lemma mergeDelegation_eq_ok {absorbed credits : Nat}
    (h : mergeDelegationStakeAndCreditsObserved stake absorbed credits = .ok stake') :
    stake'.delegation = { stake.delegation with stake := stake.delegation.stake + absorbed } := by
  obtain ⟨_, -, h⟩ := bind_eq_ok.1 h
  obtain ⟨amount, hamount, h⟩ := bind_eq_ok.1 h
  cases h
  rw [Stake.withStake, checkedAdd_eq_ok hamount]

lemma activeStakesCanMerge_eq_ok {source : Stake}
    (h : activeStakesCanMerge (some stake) (some source) = .ok ()) :
    source.delegation.deactivationEpoch = u64Max := by
  simp only [activeStakesCanMerge, activeDelegationsCanMerge] at h
  split at h
  · cases h
  · split at h
    · rename_i hmax
      exact hmax.2
    · cases h

lemma merge_state_backed {stake source : MergeKind} {clock : Clock} {sourceBalance : Nat}
    (hstake : KindBacked reserve balance stake) (hsource : KindBacked reserve sourceBalance source)
    (h : stake.merge source clock = .ok (some state)) :
    StateBacked reserve (balance + sourceBalance) state := by
  obtain ⟨_, -, h⟩ := bind_eq_ok.1 h
  obtain ⟨_, hactive, h⟩ := bind_eq_ok.1 h
  cases stake with
  | inactive m balance' flags => cases source <;> cases h
  | activationEpoch m stake flags =>
    cases source with
    | inactive sourceMeta sourceLamports sourceFlags =>
      obtain ⟨amount, hamount, h⟩ := bind_eq_ok.1 h
      cases h
      have hamount := checkedAdd_eq_ok hamount
      have hlamports : sourceLamports = sourceBalance := hsource
      refine ⟨hstake.1, fun hmax => ?_⟩
      have hle := hstake.2 hmax
      simp only [Stake.withStake]
      omega
    | activationEpoch sourceMeta sourceStake sourceFlags =>
      obtain ⟨sourceLamports, hlamports, h⟩ := bind_eq_ok.1 h
      obtain ⟨stake', hstake', h⟩ := bind_eq_ok.1 h
      cases h
      have hlamports := checkedAdd_eq_ok hlamports
      have hsourceLe := hsource.2 (activeStakesCanMerge_eq_ok hactive)
      have hm := hsource.1
      refine ⟨hstake.1, fun hmax => ?_⟩
      rw [mergeDelegation_eq_ok hstake'] at hmax ⊢
      have hle := hstake.2 hmax
      simp only
      omega
    | fullyActive sourceMeta sourceStake => cases h
  | fullyActive m stake =>
    cases source with
    | fullyActive sourceMeta sourceStake =>
      obtain ⟨stake', hstake', h⟩ := bind_eq_ok.1 h
      cases h
      have hsourceLe := hsource.2 (activeStakesCanMerge_eq_ok hactive)
      refine ⟨hstake.1, fun hmax => ?_⟩
      rw [mergeDelegation_eq_ok hstake'] at hmax ⊢
      have hle := hstake.2 hmax
      simp only
      omega
    | inactive sourceMeta sourceLamports sourceFlags => cases h
    | activationEpoch sourceMeta sourceStake sourceFlags => cases h

lemma merge_backed (howner : (accounts stakeKey).owner = stakeProgramId)
    (h : Backed reserve accounts) (hok : merge ctx accounts stakeKey sourceKey = .ok accounts') :
    Backed reserve accounts' := by
  simp only [merge, ite_reject_eq_ok, bind_eq_ok, getState_eq_ok] at hok
  obtain ⟨hsourceOwner, hne, stakeState, hstakeState, stakeKind, hstakeKind, _, -, sourceState,
    hsourceState, sourceKind, hsourceKind, merged, hmerged, written, hwritten, drained, hdrained,
    mid, hsub, hadd⟩ := hok
  have htransfer := transferred_of_sub_add hsub hadd
  have hstake := getIfMergeable_backed
    (h stakeKey howner _ hstakeState) hstakeKind
  have hsource := getIfMergeable_backed
    (h sourceKey (not_not.1 hsourceOwner) _ hsourceState) hsourceKind
  -- The state of the destination is backed once the source has been drained into it.
  have hwritten : (∀ k, (written k).lamports = (accounts k).lamports) ∧
      (∀ k, k ≠ stakeKey → written k = accounts k) ∧
      BackedBy reserve ((accounts stakeKey).lamports + (accounts sourceKey).lamports)
        (written stakeKey) := by
    cases merged with
    | none =>
      cases hwritten
      exact ⟨fun _ => rfl, fun _ _ => rfl, (h stakeKey).mono (Nat.le_add_right _ _)⟩
    | some state =>
      obtain ⟨-, rfl⟩ := setState_eq_ok hwritten
      exact ⟨fun k => by simp, fun k hk => putState_of_ne hk,
        backedBy_putState_self.2 (fun _ => merge_state_backed hstake hsource hmerged)⟩
  obtain ⟨hlamports, hother, hdestination⟩ := hwritten
  obtain ⟨-, rfl⟩ := setState_eq_ok hdrained
  refine htransfer.backed (fun k hs ht => ?_) (backedBy_putState_self.2 fun _ => trivial)
    (fun _ => ?_)
  · rw [putState_of_ne hs, hother k ht]
    exact h k
  · rw [putState_lamports, putState_lamports, hlamports, hlamports, putState_of_ne hne]
    exact hdestination

/-! ## Redelegate -/

lemma redelegate_backed {uninitializedStakeKey : Pubkey} (hepoch : ctx.clock.epoch < u64Max)
    (h : Backed (ctx.rent.minimumBalance sizeOf) accounts)
    (hok : redelegate ctx accounts stakeKey uninitializedStakeKey voteKey = .ok accounts') :
    Backed (ctx.rent.minimumBalance sizeOf) accounts' := by
  simp only [redelegate, ite_reject_eq_ok, bind_eq_ok] at hok
  obtain ⟨hne, -, hlen, uninitializedState, huninit, -, -, -, voteState, -, state, -, hok⟩ := hok
  cases state with
  | stake m stake flags =>
    simp only [ite_reject_eq_ok, bind_eq_ok] at hok
    obtain ⟨-, -, deactivated, hdeactivated, mid, hsub, funded, hadd, stakeAmount, hamount,
      hset⟩ := hok
    have htransfer := transferred_of_sub_add hsub hadd
    obtain ⟨state, rfl, hstate⟩ := deactivate_eq_ok hepoch h hdeactivated
    have hdeactivatedBacked : Backed _ (putState accounts stakeKey state) :=
      h.update (fun _ s hs => by cases hs; exact hstate _)
    have hfunded : Backed _ funded := htransfer.backed (fun k _ _ => hdeactivatedBacked k)
      (backedBy_putState_self.2 fun _ => hstate _)
      (fun _ => (hdeactivatedBacked _).mono (Nat.le_add_right _ _))
    have hreserve : ctx.rent.minimumBalance (funded uninitializedStakeKey).data.len =
        ctx.rent.minimumBalance sizeOf := by
      rw [htransfer.data_eq, putState_of_ne hne, not_not.1 hlen]
    refine setState_backed hfunded hset ⟨hreserve, fun _ => ?_⟩
    rw [← hreserve]
    exact (validateDelegatedAmount_eq_ok hamount).le
  | initialized m => cases hok
  | uninitialized => cases hok
  | rewardsPool => cases hok

/-! ## Rewards -/

lemma redeemStakeRewards_eq_ok
    (h : redeemStakeRewards rewardedEpoch stake pointValue voteState w = .ok (some (stake', staker, voter))) :
    stake'.delegation = { stake.delegation with
      stake := (stake.delegation.stake + staker) % (u64Max + 1) } := by
  obtain ⟨rewards, -, h⟩ := bind_eq_ok.1 h
  cases rewards with
  | none => cases h
  | some rewards =>
    cases h
    rfl

lemma redeemRewards_backed {account' : Account ProgramData}
    (h : BackedBy reserve account.lamports account)
    (hok : redeemRewards rewardedEpoch account voteState pointValue w = .ok (account', staker, voter)) :
    BackedBy reserve account'.lamports account' := by
  obtain ⟨state, hstate, hok⟩ := bind_eq_ok.1 hok
  cases state with
  | stake m stake flags =>
    obtain ⟨redeemed, hredeemed, hok⟩ := bind_eq_ok.1 hok
    match redeemed with
    | none => cases hok
    | some (stake', staker', voter') =>
      obtain ⟨total, htotal, hok⟩ := bind_eq_ok.1 hok
      obtain ⟨-, rfl⟩ := checkedAddU64_eq_some.1 (okOr_eq_ok.1 htotal)
      simp only at hok
      split at hok
      · cases hok
      cases hok
      intro howner s hs
      cases hs
      have hb := h howner _ (getState_eq_ok.1 hstate)
      refine ⟨hb.1, fun hmax => ?_⟩
      rw [redeemStakeRewards_eq_ok hredeemed] at hmax ⊢
      have hle := hb.2 hmax
      have hmod := Nat.mod_le (stake.delegation.stake + staker) (u64Max + 1)
      simp only
      omega
  | initialized m => cases hok
  | uninitialized => cases hok
  | rewardsPool => cases hok

/-! ## Runs -/

/-- The rent is the fixed one, the feature that checks the lamports before a deactivation is
rescinded is active, and the epoch is not the one that marks a stake as not deactivated. -/
def StakeOp.Permitted (rent : Rent) : StakeOp → Prop
  | .instruction ctx _ _ => ctx.rent = rent ∧
      ctx.featureSet.isActive .stakeRedelegateInstruction = true ∧ ctx.clock.epoch < u64Max
  | .redeemRewards .. => True

lemma processInstruction_backed {instr : StakeInstruction}
    (hfeature : ctx.featureSet.isActive .stakeRedelegateInstruction = true)
    (hepoch : ctx.clock.epoch < u64Max) (h : Backed (ctx.rent.minimumBalance sizeOf) accounts)
    (hok : processInstruction ctx accounts stakeKey instr = .ok accounts') :
    Backed (ctx.rent.minimumBalance sizeOf) accounts' := by
  obtain ⟨howner, hok⟩ := ite_reject_eq_ok.1 hok
  have howner := not_not.1 howner
  cases instr with
  | initializeStake authorized lockup => exact initializeStake_backed h hok
  | delegateStake voteKey => exact delegate_backed hfeature h hok
  | split lamports splitKey => exact split_backed howner h hok
  | merge sourceKey => exact merge_backed howner h hok
  | withdraw lamports toKey withdrawAuthority custodianKey => exact withdraw_backed hepoch h hok
  | deactivate =>
    obtain ⟨state, rfl, hstate⟩ := deactivate_eq_ok hepoch h hok
    exact h.update fun _ s hs => by cases hs; exact hstate _
  | redelegate uninitializedStakeKey voteKey =>
    simp only [hfeature, if_true] at hok
    exact redelegate_backed hepoch h hok

lemma stakeOp_backed {op : StakeOp} (hop : StakeOp.Permitted rent op)
    (h : Backed (rent.minimumBalance sizeOf) accounts) :
    Backed (rent.minimumBalance sizeOf) (op.apply accounts) := by
  cases op with
  | instruction ctx stakeKey instr =>
    obtain ⟨rfl, hfeature, hepoch⟩ := hop
    simp only [StakeOp.apply]
    split
    · rename_i hok
      exact processInstruction_backed hfeature hepoch h hok
    · exact h
  | redeemRewards stakeKey rewardedEpoch voteState pointValue w =>
    simp only [StakeOp.apply]
    split
    · rename_i hok
      exact h.update (redeemRewards_backed (h stakeKey) hok)
    · exact h

lemma runStakeOps_backed {ops : List StakeOp} (hops : ∀ op ∈ ops, StakeOp.Permitted rent op)
    (h : Backed (rent.minimumBalance sizeOf) accounts) :
    Backed (rent.minimumBalance sizeOf) (runStakeOps accounts ops) := by
  exact List.foldlRecOn ops _ h fun _ h op hop => stakeOp_backed (hops op hop) h

/-- 3480 lamports per byte and year, for two years. -/
def twoYearRent : Rent := ⟨fun len => (128 + len) * 3480 * 2⟩

def fundedAccounts : StakeAccounts := fun key =>
  if key = 1 then ⟨2282880 + 1000, ⟨200, .stake .uninitialized⟩, stakeProgramId, false, 0⟩
  else if key = 2 then ⟨1, ⟨3762, .vote VoteState.default⟩, voteProgramId, false, 0⟩
  else ⟨0, ⟨0, .other⟩, 0, false, 0⟩

def quarterWarmup : WarmupParams := ⟨[(0, ⟨1000, 1000, 0⟩)], none, exactPortion⟩

def inEpoch (epoch : Epoch) (features : FeatureSet) (instr : StakeInstruction) : StakeOp :=
  .instruction ⟨features, ⟨epoch, 0⟩, twoYearRent, quarterWarmup, [3], fun _ => true⟩ 1 instr

/-- Initialize and delegate in epoch 0; in epoch 1 deactivate, do something, and rescind the
deactivation. -/
def rescindingRun (features : FeatureSet) (instrs : List StakeInstruction) : List StakeOp :=
  [inEpoch 0 features (.initializeStake ⟨3, 3⟩ .default), inEpoch 0 features (.delegateStake 2),
    inEpoch 1 features .deactivate] ++ instrs.map (inEpoch 1 features) ++
    [inEpoch 1 features (.delegateStake 2)]

def redelegationActive : FeatureSet := ⟨fun f => f == .stakeRedelegateInstruction⟩

lemma fundedAccounts_backed : Backed 2282880 fundedAccounts := by
  intro key
  unfold fundedAccounts
  split
  · intro _ state hstate
    cases hstate
    trivial
  · split
    · intro _ state hstate
      cases hstate
    · intro _ state hstate
      cases hstate

end Nuah.Proofs
