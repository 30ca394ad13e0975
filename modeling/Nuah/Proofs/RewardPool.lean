import Nuah.StakeRewards

/-!
# Rewards stay within the pool

Each stake is paid its share of the pool, rounded down and then split with the commission of its
vote account. Rounding only ever loses lamports, so all stakes together get at most the pool.
-/

namespace Nuah.Proofs

open List

lemma commissionSplit_sum (vs : VoteState) (on : Nat) :
    (vs.commissionSplit on).1 + (vs.commissionSplit on).2.1 ≤ on ∧
      on ≤ (vs.commissionSplit on).1 + (vs.commissionSplit on).2.1 + 1 := by
  unfold VoteState.commissionSplit
  dsimp only
  split_ifs with hzero hall
  · simp
  · simp
  · have hcommission : min vs.commission 100 ≤ 100 := min_le_right _ _
    have htotal : on * min vs.commission 100 + on * (100 - min vs.commission 100) = on * 100 := by
      rw [← Nat.mul_add, Nat.add_sub_cancel' hcommission]
    constructor
    · dsimp only
      omega
    · dsimp only
      omega

lemma commissionSplit_isSplit {vs : VoteState} (hpos : 0 < vs.commission)
    (hlt : vs.commission < 100) (on : Nat) : (vs.commissionSplit on).2.2 = true := by
  unfold VoteState.commissionSplit
  rw [min_eq_left hlt.le, if_neg hpos.ne', if_neg hlt.ne]

def CreditsOnly (rewardedEpoch : Epoch) (stake : Stake) (rewards : Nat)
    (calculated : CalculatedStakePoints) : Prop :=
  calculated.forceCreditsUpdateWithSkippedReward = true ∨ rewards = 0 ∨
    stake.delegation.activationEpoch = rewardedEpoch

def payment (voteState : VoteState) (share newCreditsObserved : Nat) :
    Option CalculatedStakeRewards :=
  let (voterRewards, stakerRewards, isSplit) := voteState.commissionSplit share
  if share = 0 ∨ (voterRewards = 0 ∨ stakerRewards = 0) ∧ isSplit then none
  else some ⟨stakerRewards, voterRewards, newCreditsObserved⟩

section

variable {rewardedEpoch : Epoch} {stake : Stake} {voteState : VoteState} {w : WarmupParams}
  {calculated : CalculatedStakePoints} {rewards points : Nat}

section

variable (hcalculated : calculateStakePointsAndCredits stake voteState w = .ok calculated)

include hcalculated

lemma calculateStakeRewards_of_creditsOnly
    (honly : CreditsOnly rewardedEpoch stake rewards calculated) :
    calculateStakeRewards rewardedEpoch stake ⟨rewards, points⟩ voteState w =
      .ok (some ⟨0, 0, calculated.newCreditsObserved⟩) := by
  refine bind_eq_ok.2 ⟨calculated, hcalculated, ?_⟩
  apply if_pos
  simp only [Bool.or_eq_true, decide_eq_true_eq, or_assoc]
  exact honly

lemma calculateStakeRewards_of_share (honly : ¬ CreditsOnly rewardedEpoch stake rewards calculated)
    (hle : calculated.points ≤ points) (hpoints : 0 < points) (hrewards : rewards ≤ u64Max)
    (hfits : points * rewards < 2 ^ 128) :
    calculateStakeRewards rewardedEpoch stake ⟨rewards, points⟩ voteState w =
      .ok (payment voteState (calculated.points * rewards / points)
        calculated.newCreditsObserved) := by
  have hproduct : calculated.points * rewards ≤ points * rewards := Nat.mul_le_mul_right _ hle
  have hshare : calculated.points * rewards / points ≤ rewards := by
    apply Nat.div_le_of_le_mul
    exact hproduct
  have hmul : checkedMulU128 calculated.points rewards = some (calculated.points * rewards) := by
    apply if_pos
    exact Nat.le_sub_one_of_lt (hproduct.trans_lt hfits)
  refine bind_eq_ok.2 ⟨calculated, hcalculated, ?_⟩
  dsimp only
  rw [if_neg (by simpa only [CreditsOnly, Bool.or_eq_true, decide_eq_true_eq, or_assoc] using honly)]
  by_cases hzero : calculated.points = 0
  · rw [if_pos hzero, hzero, Nat.zero_mul, Nat.zero_div]
    rfl
  · rw [if_neg hzero, if_neg hpoints.ne']
    refine bind_eq_ok.2 ⟨calculated.points * rewards, by rw [hmul]; rfl, ?_⟩
    refine bind_eq_ok.2 ⟨calculated.points * rewards / points, ?_, ?_⟩
    · rw [checkedDiv, if_neg hpoints.ne']
      rfl
    refine bind_eq_ok.2 ⟨(), ?_, ?_⟩
    · rw [assertOrPanic, if_pos (decide_eq_true (hshare.trans hrewards))]
    unfold payment
    by_cases hnone : calculated.points * rewards / points = 0
    · rw [if_pos hnone]
      dsimp only
      rw [if_pos (.inl hnone)]
    · rw [if_neg hnone]
      dsimp only
      simp only [hnone, false_or]
      split_ifs <;> rfl

end

lemma payment_eq_some {share newCreditsObserved : Nat} {paid : CalculatedStakeRewards}
    (h : payment voteState share newCreditsObserved = some paid) :
    paid.stakerRewards = (voteState.commissionSplit share).2.1 ∧
      paid.voterRewards = (voteState.commissionSplit share).1 := by
  unfold payment at h
  dsimp only at h
  split_ifs at h
  cases h
  exact ⟨rfl, rfl⟩

end

/-- What a stake costs the pool. -/
def lamportsPaid : Option CalculatedStakeRewards → Nat
  | none => 0
  | some paid => paid.stakerRewards + paid.voterRewards

/-- A stake with its vote account, and the points that were computed for it. -/
structure PointedStake (w : WarmupParams) where
  stake : Stake
  voteState : VoteState
  calculated : CalculatedStakePoints
  computed : calculateStakePointsAndCredits stake voteState w = .ok calculated

/-- The total of the points, over which the pool is distributed. -/
def totalPoints {w : WarmupParams} (stakes : List (PointedStake w)) : Nat :=
  (stakes.map fun s => s.calculated.points).sum

lemma sum_div_le_sum_div {α : Type} (l : List α) (f : α → Nat) (d : Nat) :
    (l.map fun x => f x / d).sum ≤ (l.map f).sum / d := by
  induction l with
  | nil => simp
  | cons x l ih =>
    simp only [map_cons, sum_cons]
    calc f x / d + (l.map fun x => f x / d).sum ≤ f x / d + (l.map f).sum / d :=
          Nat.add_le_add_left ih _
      _ ≤ (f x + (l.map f).sum) / d := Nat.div_add_div_le_add_div

variable {w : WarmupParams}

/-- A stake is paid at most its share, short of it by at most a lamport where both sides are paid.
If the commission leaves one side with nothing, nothing is paid and its credits stay as they are.
-/
structure PaidFairly (rewardedEpoch : Epoch) (pool : PointValue) (s : PointedStake w)
    (paid : Option CalculatedStakeRewards) : Prop where
  result : calculateStakeRewards rewardedEpoch s.stake pool s.voteState w = .ok paid
  /-- The products of the split stay in their machine words. -/
  split_fits : s.calculated.points * pool.rewards / pool.points ≤ u64Max ∧
    s.calculated.points * pool.rewards / pool.points * 100 ≤ u128Max
  le_share : lamportsPaid paid ≤ s.calculated.points * pool.rewards / pool.points
  both_paid : ∀ rewards, paid = some rewards → 0 < rewards.stakerRewards →
    0 < rewards.voterRewards →
    s.calculated.points * pool.rewards / pool.points ≤ lamportsPaid paid + 1
  unfair : 0 < s.voteState.commission → s.voteState.commission < 100 →
    ¬ CreditsOnly rewardedEpoch s.stake pool.rewards s.calculated →
    ((s.voteState.commissionSplit (s.calculated.points * pool.rewards / pool.points)).1 = 0 ∨
      (s.voteState.commissionSplit (s.calculated.points * pool.rewards / pool.points)).2.1 = 0) →
    paid = none ∧
      redeemStakeRewards rewardedEpoch s.stake pool s.voteState w = .ok none

lemma paidFairly (rewardedEpoch : Epoch) {rewards points : Nat} (s : PointedStake w)
    (hle : s.calculated.points ≤ points) (hpoints : 0 < points) (hrewards : rewards ≤ u64Max)
    (hfits : points * rewards < 2 ^ 128) :
    ∃ paid, PaidFairly rewardedEpoch ⟨rewards, points⟩ s paid := by
  have hshare : s.calculated.points * rewards / points ≤ u64Max := by
    refine (Nat.div_le_of_le_mul ?_).trans hrewards
    exact Nat.mul_le_mul_right rewards hle
  have hsplit : s.calculated.points * rewards / points * 100 ≤ u128Max :=
    (Nat.mul_le_mul_right 100 hshare).trans (by decide)
  by_cases honly : CreditsOnly rewardedEpoch s.stake rewards s.calculated
  · refine ⟨_, calculateStakeRewards_of_creditsOnly s.computed honly, ⟨hshare, hsplit⟩,
      Nat.zero_le _, ?_, ?_⟩
    · rintro paid hpaid hpos -
      cases hpaid
      exact absurd hpos (Nat.lt_irrefl 0)
    · intro _ _ hnot
      exact absurd honly hnot
  · have hresult := calculateStakeRewards_of_share s.computed honly hle hpoints hrewards hfits
    have hsum := commissionSplit_sum s.voteState (s.calculated.points * rewards / points)
    refine ⟨_, hresult, ⟨hshare, hsplit⟩, ?_, ?_, ?_⟩
    · cases hpaid : payment s.voteState (s.calculated.points * rewards / points)
          s.calculated.newCreditsObserved with
      | none => exact Nat.zero_le _
      | some paid =>
        obtain ⟨hstaker, hvoter⟩ := payment_eq_some hpaid
        rw [lamportsPaid, hstaker, hvoter, Nat.add_comm]
        exact hsum.1
    · intro paid hpaid _ _
      obtain ⟨hstaker, hvoter⟩ := payment_eq_some hpaid
      rw [hpaid, lamportsPaid, hstaker, hvoter, Nat.add_comm (Prod.fst _)]
      dsimp only
      omega
    · intro hpos hlt _ hunfair
      have hnone : payment s.voteState (s.calculated.points * rewards / points)
          s.calculated.newCreditsObserved = none := by
        apply if_pos
        exact .inr ⟨hunfair, commissionSplit_isSplit hpos hlt _⟩
      rw [hnone] at hresult ⊢
      exact ⟨rfl, bind_eq_ok.2 ⟨none, hresult, rfl⟩⟩

/-- The pool is never exceeded: all rewards are computed without an overflow, each stake is paid
fairly, and together the stakes get at most the pool. -/
theorem rewards_within_pool (rewardedEpoch : Epoch) (rewards : Nat) (stakes : List (PointedStake w))
    (hrewards : rewards ≤ u64Max) (hpoints : 0 < totalPoints stakes)
    (hfits : totalPoints stakes * rewards < 2 ^ 128) :
    ∃ paid : List (Option CalculatedStakeRewards),
      List.Forall₂ (PaidFairly rewardedEpoch ⟨rewards, totalPoints stakes⟩) stakes paid ∧
        (paid.map lamportsPaid).sum ≤ rewards := by
  have hpaid : ∀ l : List (PointedStake w), (∀ s ∈ l, s ∈ stakes) →
      ∃ paid : List (Option CalculatedStakeRewards),
        List.Forall₂ (PaidFairly rewardedEpoch ⟨rewards, totalPoints stakes⟩) l paid ∧
          (paid.map lamportsPaid).sum ≤
            (l.map fun s => s.calculated.points * rewards / totalPoints stakes).sum := by
    intro l hl
    induction l with
    | nil => exact ⟨[], .nil, Nat.le_refl 0⟩
    | cons s l ih =>
      have hle : s.calculated.points ≤ totalPoints stakes := by
        apply single_le_sum fun _ _ => Nat.zero_le _
        exact mem_map_of_mem (hl s mem_cons_self)
      obtain ⟨first, hfirst⟩ := paidFairly rewardedEpoch s hle hpoints hrewards hfits
      obtain ⟨rest, hrest, hsum⟩ := ih fun s' hs' => hl s' (mem_cons_of_mem s hs')
      refine ⟨first :: rest, .cons hfirst hrest, ?_⟩
      simp only [map_cons, sum_cons]
      exact Nat.add_le_add hfirst.le_share hsum
  obtain ⟨paid, hfair, hsum⟩ := hpaid stakes fun _ hs => hs
  refine ⟨paid, hfair, ?_⟩
  calc (paid.map lamportsPaid).sum
      ≤ (stakes.map fun s => s.calculated.points * rewards / totalPoints stakes).sum := hsum
    _ ≤ (stakes.map fun s => s.calculated.points * rewards).sum / totalPoints stakes :=
        sum_div_le_sum_div stakes _ _
    _ = totalPoints stakes * rewards / totalPoints stakes := by
        rw [sum_map_mul_right, totalPoints]
    _ = rewards := Nat.mul_div_cancel_left rewards hpoints

/-! A pool of eleven lamports for two stakes: the smaller one's share is a single lamport. -/

def steadyWarmup : WarmupParams := ⟨[], none, fun _ _ _ _ => 0⟩

def votedTwice (commission : Nat) : VoteState :=
  { VoteState.default with commission := commission, epochCredits := [(3, 2, 0)] }

def pooledStakes : List (PointedStake steadyWarmup) :=
  [⟨⟨⟨7, 10, u64Max, u64Max⟩, 0⟩, votedTwice 10, ⟨20, 2, false⟩, by decide +kernel⟩,
    ⟨⟨⟨8, 1, u64Max, u64Max⟩, 0⟩, votedTwice 50, ⟨2, 2, false⟩, by decide +kernel⟩]

theorem pooledStakes_within_pool :
    ∃ paid : List (Option CalculatedStakeRewards),
      List.Forall₂ (PaidFairly 4 ⟨11, 22⟩) pooledStakes paid ∧ (paid.map lamportsPaid).sum ≤ 11 :=
  rewards_within_pool 4 11 pooledStakes (by decide) (by decide) (by decide)

example : calculateStakeRewards 4 ⟨⟨7, 10, u64Max, u64Max⟩, 0⟩ ⟨11, 22⟩ (votedTwice 10)
    steadyWarmup = .ok (some ⟨9, 1, 2⟩) := by decide +kernel

example : calculateStakeRewards 4 ⟨⟨8, 1, u64Max, u64Max⟩, 0⟩ ⟨11, 22⟩ (votedTwice 50)
    steadyWarmup = .ok none := by decide +kernel

end Nuah.Proofs
