import Mathlib.Algebra.Order.Floor.Div
import Nuah.Proofs.StakeBacking

/-!
# Splitting and merging delegations

A split moves lamports and delegation to another account without creating either. The
credits observed by a merged stake are an average rounded up, so that the merger is
entitled to no more points than its two parts.
-/

namespace Nuah.Proofs

open StakeStateV2

/-- A split conserves lamports and creates no delegation, it leaves in the source nothing or
enough of both, and what it gives the split account is covered. -/
theorem split_conserves (ctx : StakeContext) (accounts accounts' : StakeAccounts)
    (stakeKey splitKey : Pubkey) (lamports : Nat) (m : Meta) (stake : Stake) (flags : StakeFlags)
    (hstate : getState (accounts stakeKey) = .ok (.stake m stake flags))
    (hreserve : ctx.rent.minimumBalance sizeOf = m.rentExemptReserve)
    (hu64 : (accounts stakeKey).lamports ≤ u64Max)
    (hok : split ctx accounts stakeKey lamports splitKey = .ok accounts') :
    (accounts' stakeKey).lamports + (accounts' splitKey).lamports =
        (accounts stakeKey).lamports + (accounts splitKey).lamports ∧
      ∃ amount, getState (accounts' splitKey) = .ok (.stake m (stake.withStake amount) flags) ∧
        getMinimumDelegation ctx.featureSet ≤ amount ∧
        m.rentExemptReserve + amount ≤ (accounts' splitKey).lamports ∧
        ((∃ rest, getState (accounts' stakeKey) = .ok (.stake m (stake.withStake rest) flags) ∧
            getMinimumDelegation ctx.featureSet ≤ rest ∧
            m.rentExemptReserve + getMinimumDelegation ctx.featureSet ≤
              (accounts' stakeKey).lamports ∧
            rest + amount ≤ stake.delegation.stake ∧
            (0 < (getStakeStatus ctx stake).effective → rest + amount = stake.delegation.stake)) ∨
          getState (accounts' stakeKey) = .ok .uninitialized ∧ (accounts' stakeKey).lamports = 0 ∧
            amount ≤ stake.delegation.stake ∧
            (m.rentExemptReserve + stake.delegation.stake ≤ (accounts stakeKey).lamports →
              amount = stake.delegation.stake)) := by
  obtain ⟨state, written, mid, hlen, hsplit, hstate', hwritten, hmid, htransfer⟩ := split_eq_ok hok
  cases (getState_eq_ok.1 hstate).symm.trans hstate'
  have hne : stakeKey ≠ splitKey := by
    rintro rfl
    cases hstate'.symm.trans hsplit
  obtain ⟨rest, amount, hamounts, rfl⟩ := splitStates_stake_eq_ok (by rw [hlen, hreserve]) hwritten
  have hsource := htransfer.lamports_eq stakeKey
  have htarget := htransfer.lamports_eq splitKey
  have hcovered := hamounts.covered
  simp only [getState_eq_ok, htransfer.data_eq]
  rcases deinitializeIfDrained_eq_ok hmid with ⟨hall, rfl⟩ | ⟨hpart, rfl⟩ <;>
    simp only [putState_lamports, if_true, if_neg hne, if_neg hne.symm, add_zero] at *
  · obtain ⟨hamount, hsum⟩ := hamounts.total hall
    exact ⟨by omega, amount, by simp [putState, hne.symm], hamounts.min_le, by omega,
      .inr ⟨by simp [putState], by omega, by omega, fun h => by omega⟩⟩
  · obtain ⟨hlt, hrest, hmin, hle, hkept, hactive⟩ := hamounts.part hpart
    -- the amount is positive, so that too little is left for the minimum to have saturated
    have hpos := (getMinimumDelegation_pos ctx.featureSet).trans_le hamounts.min_le
    unfold saturatingAddU64 at hkept
    exact ⟨by omega, amount, by simp [putState], hamounts.min_le, by omega,
      .inl ⟨rest, by simp [putState, hne], hmin, by omega, by omega,
        fun h => by rw [hactive h, hrest]⟩⟩

/-- The accounts of `fundedAccounts` and one that is funded for its rent. -/
def splittableAccounts : StakeAccounts :=
  Function.update fundedAccounts 5 ⟨2282880, ⟨200, .stake .uninitialized⟩, stakeProgramId, false, 0⟩

def delegatedRun (instrs : List StakeInstruction) : StakeAccounts :=
  runStakeOps splittableAccounts <|
    [.initializeStake ⟨3, 3⟩ .default, .delegateStake 2].map (inEpoch 0 ⟨fun _ => false⟩) ++
      instrs.map (inEpoch 1 ⟨fun _ => false⟩)

theorem split_conserves_part :
    let ctx := ⟨⟨fun _ => false⟩, ⟨1, 0⟩, twoYearRent, quarterWarmup, [3], fun _ => true⟩
    ∃ accounts', split ctx (delegatedRun []) 1 400 5 = .ok accounts' ∧
      (accounts' 1).lamports + (accounts' 5).lamports =
        (delegatedRun [] 1).lamports + (delegatedRun [] 5).lamports := by
  intro ctx
  cases h : split ctx (delegatedRun []) 1 400 5 with
  | error e =>
    have hok : (split ctx (delegatedRun []) 1 400 5).isOk = true := by decide +kernel
    cases h ▸ hok
  | ok accounts' =>
    exact ⟨accounts', rfl, (split_conserves ctx _ _ 1 5 400 ⟨2282880, ⟨3, 3⟩, .default⟩
      ⟨⟨2, 1000, 0, u64Max⟩, 0⟩ .empty (by decide +kernel) rfl (by decide +kernel) h).1⟩

/-- A stake that is being deactivated can be withdrawn in part and then split as a whole. The
delegation of what was withdrawn is lost. -/
theorem split_total_loses :
    let accounts := delegatedRun [.deactivate, .withdraw 750 4 3 none]
    let accounts' := delegatedRun [.deactivate, .withdraw 750 4 3 none, .split 2283130 5]
    (accounts 1).lamports = 2283130 ∧ (accounts' 1).lamports = 0 ∧
      (accounts 1).data.content = .stake (.stake ⟨2282880, ⟨3, 3⟩, .default⟩
        ⟨⟨2, 1000, 0, 1⟩, 0⟩ .empty) ∧
      (accounts 5).data.content = .stake .uninitialized ∧
      (accounts' 1).data.content = .stake .uninitialized ∧
      (accounts' 5).data.content = .stake (.stake ⟨2282880, ⟨3, 3⟩, .default⟩
        ⟨⟨2, 250, 0, 1⟩, 0⟩ .empty) := by
  decide +kernel

variable {stake : Stake} {absorbedLamports absorbedCreditsObserved credits : Nat}

/-- The result is an average of the two credits, weighted by the stakes and rounded up. -/
structure RoundedUp (credits c₁ s₁ c₂ s₂ : Nat) : Prop where
  min_le : min c₁ c₂ ≤ credits
  le_max : credits ≤ max c₁ c₂
  ge : c₁ * s₁ + c₂ * s₂ ≤ credits * (s₁ + s₂)
  lt : min c₁ c₂ < credits → (credits - 1) * (s₁ + s₂) < c₁ * s₁ + c₂ * s₂

variable {c₁ s₁ c₂ s₂ : Nat}

lemma min_mul_le (c₁ s₁ c₂ s₂ : Nat) : min c₁ c₂ * (s₁ + s₂) ≤ c₁ * s₁ + c₂ * s₂ := by
  rw [mul_add]
  exact add_le_add (Nat.mul_le_mul_right _ (min_le_left _ _))
    (Nat.mul_le_mul_right _ (min_le_right _ _))

lemma le_max_mul (c₁ s₁ c₂ s₂ : Nat) : c₁ * s₁ + c₂ * s₂ ≤ max c₁ c₂ * (s₁ + s₂) := by
  rw [mul_add]
  exact add_le_add (Nat.mul_le_mul_right _ (le_max_left _ _))
    (Nat.mul_le_mul_right _ (le_max_right _ _))

lemma roundedUp_ceilDiv (c₁ c₂ : Nat) (hpos : 0 < s₁ + s₂) :
    RoundedUp ((c₁ * s₁ + c₂ * s₂) ⌈/⌉ (s₁ + s₂)) c₁ s₁ c₂ s₂ := by
  have hiff : ∀ c, (c₁ * s₁ + c₂ * s₂) ⌈/⌉ (s₁ + s₂) ≤ c ↔ c₁ * s₁ + c₂ * s₂ ≤ c * (s₁ + s₂) :=
    fun c => by rw [ceilDiv_le_iff_le_mul hpos, mul_comm (s₁ + s₂)]
  have hge := (hiff _).1 le_rfl
  refine ⟨Nat.le_of_mul_le_mul_right ((min_mul_le _ _ _ _).trans hge) hpos,
    (hiff _).2 (le_max_mul _ _ _ _), hge, fun hlt => not_le.1 fun hle => ?_⟩
  have := (hiff _).2 hle
  omega

lemma roundedUp_self (c : Nat) : RoundedUp c c s₁ c s₂ :=
  ⟨min_le_left _ _, le_max_left _ _, (mul_add _ _ _).ge, fun h => absurd h (by simp)⟩

lemma RoundedUp.points (h : RoundedUp credits c₁ s₁ c₂ s₂) {v : Nat} (hv : max c₁ c₂ ≤ v) :
    (v - credits) * (s₁ + s₂) ≤ (v - c₁) * s₁ + (v - c₂) * s₂ ∧
      (0 < s₁ + s₂ → (v - c₁) * s₁ + (v - c₂) * s₂ < (v - credits) * (s₁ + s₂) + (s₁ + s₂)) := by
  have h₁ := Nat.mul_le_mul_right s₁ ((le_max_left _ _).trans hv)
  have h₂ := Nat.mul_le_mul_right s₂ ((le_max_right _ _).trans hv)
  have h₃ := Nat.mul_le_mul_right (s₁ + s₂) (h.le_max.trans hv)
  have hge := h.ge
  -- less than one credit of the whole stake is rounded away
  have hlt : 0 < s₁ + s₂ → credits * (s₁ + s₂) < c₁ * s₁ + c₂ * s₂ + (s₁ + s₂) := by
    intro hpos
    rcases h.min_le.eq_or_lt with heq | hlt
    · rw [← heq]
      exact (min_mul_le _ _ _ _).trans_lt (Nat.lt_add_of_pos_right hpos)
    · have := h.lt hlt
      rw [Nat.sub_mul] at this
      omega
  have hv' := mul_add v s₁ s₂
  rw [Nat.sub_mul, Nat.sub_mul, Nat.sub_mul]
  exact ⟨by omega, fun hpos => by have := hlt hpos; omega⟩

lemma stakeWeightedCreditsObserved_of_ne (hne : stake.creditsObserved ≠ absorbedCreditsObserved)
    (hcredits : stake.creditsObserved ≤ u64Max) (habsorbed : absorbedCreditsObserved ≤ u64Max) :
    stakeWeightedCreditsObserved stake absorbedLamports absorbedCreditsObserved =
      if u64Max < stake.delegation.stake + absorbedLamports ∨
          stake.delegation.stake + absorbedLamports = 0 then none
      else some ((stake.creditsObserved * stake.delegation.stake +
        absorbedCreditsObserved * absorbedLamports) ⌈/⌉
          (stake.delegation.stake + absorbedLamports)) := by
  rw [stakeWeightedCreditsObserved, if_neg hne]
  split
  · rename_i hnone
    rcases hnone with hmax | hzero
    · rw [checkedAddU64, if_neg (not_le.2 hmax)]
      rfl
    · obtain ⟨hs₁, hs₂⟩ := Nat.add_eq_zero_iff.1 hzero
      simp [hs₁, hs₂, checkedAddU64, checkedMulU128, checkedAddU128, checkedSub]
  · rename_i hsome
    have hmax := max_le hcredits habsorbed
    have hpos := Nat.pos_of_ne_zero fun h => hsome (.inr h)
    have hweighted := (le_max_mul _ stake.delegation.stake _ absorbedLamports).trans
      (Nat.mul_le_mul_right _ hmax)
    have hround := (roundedUp_ceilDiv _ _ hpos).le_max.trans hmax
    rw [Nat.ceilDiv_eq_add_pred_div] at hround ⊢
    -- the weighted credits are below 2^64 times the total stake, so no product overflows
    have hbound : u64Max * (stake.delegation.stake + absorbedLamports) +
        (stake.delegation.stake + absorbedLamports) ≤ u128Max := by
      unfold u64Max u128Max at *
      omega
    simp (disch := omega) only [checkedAddU64, checkedMulU128, checkedAddU128, checkedSub,
      checkedDiv, Option.bind_eq_bind, Option.bind_some, if_pos, if_neg]

/-- The merged credits are an average rounded up, and the merge fails only if the total stake
overflows or if there are credits to weigh but no stake. -/
theorem mergedCredits_conservative (stake : Stake) (absorbedLamports absorbedCreditsObserved : Nat)
    (hcredits : stake.creditsObserved ≤ u64Max) (habsorbed : absorbedCreditsObserved ≤ u64Max) :
    let c₁ := stake.creditsObserved
    let s₁ := stake.delegation.stake
    let c₂ := absorbedCreditsObserved
    let s₂ := absorbedLamports
    (stakeWeightedCreditsObserved stake s₂ c₂ = none ↔
      c₁ ≠ c₂ ∧ (u64Max < s₁ + s₂ ∨ s₁ + s₂ = 0)) ∧
    ((∃ merged, mergeDelegationStakeAndCreditsObserved stake s₂ c₂ = .ok merged) ↔
      s₁ + s₂ ≤ u64Max ∧ (c₁ ≠ c₂ → 0 < s₁ + s₂)) ∧
    ∀ credits ∈ stakeWeightedCreditsObserved stake s₂ c₂,
      min c₁ c₂ ≤ credits ∧ credits ≤ max c₁ c₂ ∧
      c₁ * s₁ + c₂ * s₂ ≤ credits * (s₁ + s₂) ∧
      (min c₁ c₂ < credits → (credits - 1) * (s₁ + s₂) < c₁ * s₁ + c₂ * s₂) ∧
      ∀ v, max c₁ c₂ ≤ v →
        (v - credits) * (s₁ + s₂) ≤ (v - c₁) * s₁ + (v - c₂) * s₂ ∧
        (0 < s₁ + s₂ →
          (v - c₁) * s₁ + (v - c₂) * s₂ < (v - credits) * (s₁ + s₂) + (s₁ + s₂)) := by
  intro c₁ s₁ c₂ s₂
  have hnone : stakeWeightedCreditsObserved stake s₂ c₂ = none ↔
      c₁ ≠ c₂ ∧ (u64Max < s₁ + s₂ ∨ s₁ + s₂ = 0) := by
    by_cases heq : c₁ = c₂
    · rw [stakeWeightedCreditsObserved, if_pos heq]
      simp [heq]
    · rw [stakeWeightedCreditsObserved_of_ne heq hcredits habsorbed]
      simp only [ite_eq_left_iff, reduceCtorEq, imp_false, not_not, heq, ne_eq,
        not_false_eq_true, true_and, s₁, s₂]
  refine ⟨hnone, ?_, fun credits h => ?_⟩
  · constructor
    · rintro ⟨merged, h⟩
      obtain ⟨credits, hsome, h⟩ := bind_eq_ok.1 h
      obtain ⟨amount, hamount, -⟩ := bind_eq_ok.1 h
      refine ⟨(checkedAddU64_eq_some.1 (okOr_eq_ok.1 hamount)).1, fun hne => ?_⟩
      by_contra hzero
      cases (okOr_eq_ok.1 hsome).symm.trans (hnone.2 ⟨hne, .inr (by omega)⟩)
    · rintro ⟨hle, hpos⟩
      obtain ⟨credits, hsome⟩ := Option.ne_none_iff_exists'.1
        fun h => (hnone.1 h).2.elim (by omega) (hpos (hnone.1 h).1).ne'
      exact ⟨_, bind_eq_ok.2 ⟨credits, okOr_eq_ok.2 hsome,
        bind_eq_ok.2 ⟨_, okOr_eq_ok.2 (checkedAddU64_eq_some.2 ⟨hle, rfl⟩), rfl⟩⟩⟩
  · have hround : RoundedUp credits c₁ s₁ c₂ s₂ := by
      by_cases heq : c₁ = c₂
      · rw [stakeWeightedCreditsObserved, if_pos heq] at h
        cases h
        rw [← heq]
        exact roundedUp_self c₁
      · rw [stakeWeightedCreditsObserved_of_ne heq hcredits habsorbed] at h
        split at h
        · cases h
        · rename_i hsome
          cases h
          exact roundedUp_ceilDiv _ _ (Nat.pos_of_ne_zero fun h => hsome (.inr h))
    exact ⟨hround.min_le, hround.le_max, hround.ge, hround.lt, fun v hv => hround.points hv⟩

theorem mergedCredits_conservative_example :
    stakeWeightedCreditsObserved ⟨⟨2, 2, 0, u64Max⟩, 4⟩ 1 8 = some 6 ∧
      (10 - 6) * (2 + 1) ≤ (10 - 4) * 2 + (10 - 8) * 1 :=
  ⟨by decide +kernel, (((mergedCredits_conservative ⟨⟨2, 2, 0, u64Max⟩, 4⟩ 1 8 (by decide)
    (by decide)).2.2 6 (by decide +kernel)).2.2.2.2 10 (by decide)).1⟩

/-- Equal credits are returned without a look at the stakes: their sum may overflow, or be zero,
so that the points lost are not fewer than it. -/
theorem stakeWeightedCreditsObserved_unchecked :
    stakeWeightedCreditsObserved ⟨⟨2, u64Max, 0, u64Max⟩, 4⟩ u64Max 4 = some 4 ∧
      stakeWeightedCreditsObserved ⟨⟨2, 0, 0, u64Max⟩, 4⟩ 0 4 = some 4 ∧
      ¬ (9 - 4) * 0 + (9 - 4) * 0 < (9 - 4) * (0 + 0) + (0 + 0) := by
  decide +kernel

end Nuah.Proofs
