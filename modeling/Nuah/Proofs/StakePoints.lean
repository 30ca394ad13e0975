import Nuah.StakeRewards

/-!
# Stake points count every credit once

The history of a vote account's credits divides its credits among epochs. A stake is given
points for the credits that it has not observed, so that observing them in two steps gives
the points of one.
-/

namespace Nuah.Proofs

open VoteState Delegation List Option

variable {epoch lastEpoch c p total points observed limit : Nat}
  {vs : VoteState} {credits : Nat} {stake : Stake}
  {kept front history : List EpochCredits} {epochs : List Epoch}

abbrev EpochCredits := Epoch × Nat × Nat

/-- The credits of a history are divided among increasing epochs. -/
structure CreditHistory (history : List EpochCredits) : Prop where
  length_le : history.length ≤ maxEpochCreditsHistory
  epochs_lt : history.Pairwise fun a b => a.1 < b.1
  prev_le : ∀ x ∈ history, x.2.2 ≤ x.2.1
  chain : history.IsChain fun a b => b.2.2 = a.2.1

/-- The oldest entry is removed when a new one is needed and the history is full. -/
def DropsEntry (history : List EpochCredits) (epoch : Epoch) : Prop :=
  ∃ lastEpoch credits prevCredits, history.getLast? = some (lastEpoch, credits, prevCredits) ∧
    epoch ≠ lastEpoch ∧ credits ≠ prevCredits ∧ history.length = maxEpochCreditsHistory

lemma incrementCredits_of_roll
    (h : rollEpochCredits vs.epochCredits epoch = kept ++ [(lastEpoch, c, p)]) :
    (vs.incrementCredits epoch credits).epochCredits =
      kept ++ [(lastEpoch, saturatingAddU64 c credits, p)] := by
  simp [incrementCredits, h]

lemma rollEpochCredits_same :
    rollEpochCredits (front ++ [(epoch, c, p)]) epoch = front ++ [(epoch, c, p)] := by
  simp [rollEpochCredits]

lemma rollEpochCredits_renamed (hepoch : epoch ≠ lastEpoch)
    (hlen : (front ++ [(lastEpoch, c, c)]).length ≤ maxEpochCreditsHistory) :
    rollEpochCredits (front ++ [(lastEpoch, c, c)]) epoch = front ++ [(epoch, c, c)] := by
  have hshort : ¬ maxEpochCreditsHistory < front.length + 1 := by simpa using hlen
  simp [rollEpochCredits, hepoch, hshort]

lemma rollEpochCredits_appended (front : List EpochCredits) (hepoch : epoch ≠ lastEpoch)
    (hearned : c ≠ p) :
    rollEpochCredits (front ++ [(lastEpoch, c, p)]) epoch =
      (if maxEpochCreditsHistory < (front ++ [(lastEpoch, c, p)]).length + 1 then
        (front ++ [(lastEpoch, c, p)]).drop 1 else front ++ [(lastEpoch, c, p)]) ++
          [(epoch, c, c)] := by
  simp only [rollEpochCredits, getLast?_append, getLast?_singleton,
    some_or, hepoch, hearned, ne_eq, not_false_eq_true, if_true, length_append,
    length_singleton]
  split
  · rw [drop_append_of_le_length (by simp)]
  · rfl

lemma incrementCredits_cases (vs : VoteState) (epoch : Epoch) (credits : Nat)
    (hlen : vs.epochCredits.length ≤ maxEpochCreditsHistory) :
    (vs.epochCredits = [] ∧
      (vs.incrementCredits epoch credits).epochCredits = [(epoch, saturatingAddU64 0 credits, 0)]) ∨
    ∃ front lastEpoch c p, vs.epochCredits = front ++ [(lastEpoch, c, p)] ∧
      ((epoch = lastEpoch ∨ c = p) ∧
          (vs.incrementCredits epoch credits).epochCredits =
            front ++ [(epoch, saturatingAddU64 c credits, p)] ∨
        epoch ≠ lastEpoch ∧ c ≠ p ∧ ∃ kept,
          (kept = vs.epochCredits ∧ vs.epochCredits.length < maxEpochCreditsHistory ∨
            kept = vs.epochCredits.drop 1 ∧ DropsEntry vs.epochCredits epoch) ∧
          (vs.incrementCredits epoch credits).epochCredits =
            kept ++ [(epoch, saturatingAddU64 c credits, c)]) := by
  rcases eq_nil_or_concat vs.epochCredits with hnil | ⟨front, ⟨lastEpoch, c, p⟩, hlast⟩
  · have hroll : rollEpochCredits vs.epochCredits epoch = [] ++ [(epoch, 0, 0)] := by
      rw [hnil]
      rfl
    exact .inl ⟨hnil, incrementCredits_of_roll hroll⟩
  · rw [concat_eq_append] at hlast
    refine .inr ⟨front, lastEpoch, c, p, hlast, ?_⟩
    by_cases hepoch : epoch = lastEpoch
    · subst hepoch
      refine .inl ⟨.inl rfl, incrementCredits_of_roll ?_⟩
      rw [hlast, rollEpochCredits_same]
    · by_cases hearned : c = p
      · subst hearned
        refine .inl ⟨.inr rfl, incrementCredits_of_roll ?_⟩
        rw [hlast] at hlen ⊢
        exact rollEpochCredits_renamed hepoch hlen
      · refine .inr ⟨hepoch, hearned, ?_⟩
        have hroll := rollEpochCredits_appended front hepoch hearned
        rw [← hlast] at hroll
        by_cases hfull : vs.epochCredits.length = maxEpochCreditsHistory
        · rw [if_pos (by omega)] at hroll
          refine ⟨_, .inr ⟨rfl, ?_⟩, incrementCredits_of_roll hroll⟩
          exact ⟨lastEpoch, c, p, by simp [hlast], hepoch, hearned, hfull⟩
        · rw [if_neg (by omega)] at hroll
          exact ⟨_, .inl ⟨rfl, lt_of_le_of_ne hlen hfull⟩, incrementCredits_of_roll hroll⟩

lemma creditHistory_nil : CreditHistory [] := ⟨by simp, by simp, by simp, by simp⟩

lemma isChain_append_singleton (h : history.IsChain (fun a b : EpochCredits => b.2.2 = a.2.1))
    (hlast : history = front ++ [(lastEpoch, c, p)]) (epoch credits : Nat) :
    (history ++ [(epoch, credits, c)]).IsChain (fun a b : EpochCredits => b.2.2 = a.2.1) := by
  refine h.append (isChain_singleton _) ?_
  intro x hx y hy
  simp only [hlast, getLast?_append, getLast?_singleton, some_or, mem_def, Option.some.injEq] at hx
  simp only [head?_cons, mem_def, Option.some.injEq] at hy
  rw [← hx, ← hy]

lemma CreditHistory.replaceLast (h : CreditHistory (front ++ [(lastEpoch, c, p)]))
    (hepoch : lastEpoch ≤ epoch) (hcredits : c ≤ credits) :
    CreditHistory (front ++ [(epoch, credits, p)]) where
  length_le := by simpa using h.length_le
  epochs_lt := by
    have hlt := pairwise_append.1 h.epochs_lt
    refine pairwise_append.2 ⟨hlt.1, pairwise_singleton _ _, ?_⟩
    intro a ha b hb
    rw [mem_singleton.1 hb]
    exact lt_of_lt_of_le (hlt.2.2 a ha _ (mem_singleton.2 rfl)) hepoch
  prev_le := by
    have hlast : p ≤ c := h.prev_le (lastEpoch, c, p) (by simp)
    refine forall_mem_append.2 ⟨(forall_mem_append.1 h.prev_le).1, ?_⟩
    exact forall_mem_singleton.2 (le_trans hlast hcredits)
  chain := by
    have hchain := isChain_append.1 h.chain
    refine isChain_append.2 ⟨hchain.1, isChain_singleton _, ?_⟩
    intro a ha b hb
    have := hchain.2.2 a ha (lastEpoch, c, p) (by simp)
    simp only [head?_cons, mem_def, Option.some.injEq] at hb
    rw [← hb]
    exact this

lemma CreditHistory.concat (h : CreditHistory history)
    (hlast : history = front ++ [(lastEpoch, c, p)])
    (hlen : history.length < maxEpochCreditsHistory)
    (hepoch : ∀ x ∈ history, x.1 < epoch) (hcredits : c ≤ credits) :
    CreditHistory (history ++ [(epoch, credits, c)]) where
  length_le := by
    rw [length_append, length_singleton]
    omega
  epochs_lt := by
    refine pairwise_append.2 ⟨h.epochs_lt, pairwise_singleton _ _, ?_⟩
    intro a ha b hb
    rw [mem_singleton.1 hb]
    exact hepoch a ha
  prev_le := forall_mem_append.2 ⟨h.prev_le, forall_mem_singleton.2 hcredits⟩
  chain := isChain_append_singleton h.chain hlast epoch credits

lemma CreditHistory.drop_one (h : CreditHistory history) :
    CreditHistory (history.drop 1) where
  length_le := le_trans (by simp) h.length_le
  epochs_lt := h.epochs_lt.sublist (drop_sublist _ _)
  prev_le x hx := h.prev_le x (mem_of_mem_drop hx)
  chain := h.chain.drop 1

/-- The calls of `increment_credits`, each with its epoch and credits. -/
def awardCredits (vs : VoteState) (calls : List (Epoch × Nat)) : VoteState :=
  calls.foldl (fun vs call => vs.incrementCredits call.1 call.2) vs

lemma credits_of_last (h : vs.epochCredits = kept ++ [(epoch, c, p)]) : vs.credits = c := by
  simp [credits, h]

structure Awarded (vs : VoteState) (total : Nat) (epochs : List Epoch) : Prop where
  history : CreditHistory vs.epochCredits
  credits_eq : vs.credits = total
  epochs_mem : ∀ x ∈ vs.epochCredits, x.1 ∈ epochs

lemma Awarded.increment (h : Awarded vs total epochs) {epoch : Epoch}
    (hepoch : ∀ e ∈ epochs, e ≤ epoch) (htotal : total + credits ≤ u64Max) :
    Awarded (vs.incrementCredits epoch credits) (total + credits) (epochs ++ [epoch]) := by
  have hadd : saturatingAddU64 total credits = total + credits := min_eq_left htotal
  rcases incrementCredits_cases vs epoch credits h.history.length_le with
    ⟨hnil, hresult⟩ | ⟨front, lastEpoch, c, p, hlast, hcases⟩
  · have htotal0 : total = 0 := by
      rw [← h.credits_eq, VoteState.credits, hnil]
      rfl
    rw [← htotal0, hadd] at hresult
    refine ⟨?_, by simp [VoteState.credits, hresult], ?_⟩
    · rw [hresult]
      exact ⟨by simp [maxEpochCreditsHistory], pairwise_singleton _ _, by simp [htotal0], isChain_singleton _⟩
    · rw [hresult]
      simp
  · have hc : c = total := (credits_of_last hlast).symm.trans h.credits_eq
    subst hc
    rw [hadd] at hcases
    have hmem : (lastEpoch, c, p) ∈ vs.epochCredits := by simp [hlast]
    have hle : lastEpoch ≤ epoch := hepoch _ (h.epochs_mem _ hmem)
    rcases hcases with ⟨-, hresult⟩ | ⟨hne, -, kept, hkept, hresult⟩
    · refine ⟨?_, credits_of_last hresult, ?_⟩
      · rw [hresult]
        exact CreditHistory.replaceLast (hlast ▸ h.history) hle (Nat.le_add_right _ _)
      · rw [hresult]
        refine forall_mem_append.2 ⟨fun x hx => mem_append_left _ ?_, by simp⟩
        exact h.epochs_mem x (hlast ▸ mem_append_left _ hx)
    · -- every entry is of an epoch before that of the last one
      have hlt : ∀ x ∈ vs.epochCredits, x.1 < epoch := by
        have hlastlt : lastEpoch < epoch := lt_of_le_of_ne hle (Ne.symm hne)
        have hpair := (pairwise_append.1 (hlast ▸ h.history.epochs_lt)).2.2
        rw [hlast]
        refine forall_mem_append.2 ⟨fun x hx => ?_, forall_mem_singleton.2 hlastlt⟩
        exact lt_trans (hpair x hx _ (mem_singleton.2 rfl)) hlastlt
      obtain ⟨hsub, hhistory, hlen, front', hfront'⟩ : (∀ x ∈ kept, x ∈ vs.epochCredits) ∧
          CreditHistory kept ∧ kept.length < maxEpochCreditsHistory ∧
          ∃ front', kept = front' ++ [(lastEpoch, c, p)] := by
        rcases hkept with ⟨rfl, hlen⟩ | ⟨rfl, -, -, -, -, -, -, hfull⟩
        · exact ⟨fun x hx => hx, h.history, hlen, front, hlast⟩
        · refine ⟨fun x hx => mem_of_mem_drop hx, h.history.drop_one, ?_, front.drop 1, ?_⟩
          · rw [length_drop, hfull]
            decide
          · have hfront : 1 ≤ front.length := by
              rw [hlast, length_append, length_singleton] at hfull
              unfold maxEpochCreditsHistory at hfull
              omega
            rw [hlast, drop_append_of_le_length hfront]
      refine ⟨?_, credits_of_last hresult, ?_⟩
      · rw [hresult]
        exact hhistory.concat hfront' hlen (fun x hx => hlt x (hsub x hx)) (Nat.le_add_right _ _)
      · rw [hresult]
        exact forall_mem_append.2 ⟨fun x hx => mem_append_left _ (h.epochs_mem x (hsub x hx)), by simp⟩

/-- The points of an entry: the credits of its epoch that were not observed, each times the
stake that was effective in the epoch. -/
def entryPoints (effective : Epoch → Nat) (observed : Nat) (x : EpochCredits) : Nat :=
  effective x.1 * (x.2.1 - max x.2.2 observed)

def historyPoints (effective : Epoch → Nat) (observed : Nat) (history : List EpochCredits) : Nat :=
  (history.map (entryPoints effective observed)).sum

lemma CreditHistory.tail {x : EpochCredits} (h : CreditHistory (x :: history)) :
    CreditHistory history := h.drop_one

/-- One round of the loop. The credits observed so far are those observed at the start as
long as the entries lie below them. -/
lemma addEpochPoints_eq {w : WarmupParams} {x : EpochCredits} (hprev : x.2.2 ≤ x.2.1)
    (hobserved : x.2.2 ≤ stake.creditsObserved → observed = stake.creditsObserved)
    (hfits : points + entryPoints (stake.delegation.effectiveStake · w) stake.creditsObserved x ≤
      u128Max) :
    addEpochPoints stake w (points, observed) x =
      .ok (points + entryPoints (stake.delegation.effectiveStake · w) stake.creditsObserved x,
        max observed x.2.1) := by
  obtain ⟨epoch, c, p⟩ := x
  simp only [entryPoints] at hfits hprev hobserved ⊢
  set earned := c - max p stake.creditsObserved with hearned
  set effective := stake.delegation.effectiveStake epoch w
  have hmul : checkedMulU128 effective earned = some (effective * earned) := if_pos (by omega)
  have hadd : checkedAddU128 points (effective * earned) = some (points + effective * earned) :=
    if_pos hfits
  have hrest : (do
      let earnedPoints ← unwrapOrPanic (checkedMulU128 effective earned)
      let points ← unwrapOrPanic (checkedAddU128 points earnedPoints)
      .ok (points, max observed c) : InstructionResult (Nat × Nat)) =
      .ok (points + effective * earned, max observed c) := by
    refine bind_eq_ok.2 ⟨_, by rw [hmul]; rfl, bind_eq_ok.2 ⟨_, by rw [hadd]; rfl, rfl⟩⟩
  unfold addEpochPoints
  dsimp only
  by_cases hp : stake.creditsObserved < p
  · rw [if_pos hp]
    refine bind_eq_ok.2 ⟨earned, ?_, hrest⟩
    rw [hearned, checkedSub, if_pos hprev, max_eq_left hp.le]
    rfl
  · rw [if_neg hp]
    by_cases hc : stake.creditsObserved < c
    · rw [if_pos hc]
      refine bind_eq_ok.2 ⟨earned, ?_, hrest⟩
      rw [hearned, max_eq_right (not_lt.1 hp), hobserved (not_lt.1 hp), checkedSub, if_pos hc.le]
      rfl
    · rw [if_neg hc]
      refine bind_eq_ok.2 ⟨earned, ?_, hrest⟩
      rw [hearned, max_eq_right (not_lt.1 hp), Nat.sub_eq_zero_of_le (not_lt.1 hc)]

/-- The largest number of credits that an entry of the history ends with. -/
def finalCredits (history : List EpochCredits) : Nat := (history.getLast?.map (·.2.1)).getD 0

lemma finalCredits_cons_cons (x y : EpochCredits) (history : List EpochCredits) :
    finalCredits (x :: y :: history) = finalCredits (y :: history) := by
  simp [finalCredits]

lemma CreditHistory.le_finalCredits (h : CreditHistory history) :
    ∀ x ∈ history, x.2.1 ≤ finalCredits history := by
  induction history with
  | nil => simp
  | cons y history ih =>
    rcases history with _ | ⟨z, history⟩
    · simp [finalCredits]
    · intro x hx
      rw [finalCredits_cons_cons]
      rcases mem_cons.1 hx with rfl | hx
      · have hchain : z.2.2 = x.2.1 := (isChain_cons_cons.1 h.chain).1
        have hz : z.2.2 ≤ z.2.1 := h.prev_le z (by simp)
        exact le_trans (hchain ▸ hz) (ih h.tail z (by simp))
      · exact ih h.tail x hx

lemma addEpochPoints_loop {w : WarmupParams} (h : CreditHistory history)
    (hobserved : ∀ x ∈ history.head?, x.2.2 ≤ stake.creditsObserved →
      observed = stake.creditsObserved)
    (hfits : points + historyPoints (stake.delegation.effectiveStake · w) stake.creditsObserved
      history ≤ u128Max) :
    history.foldlM (addEpochPoints stake w) (points, observed) =
      .ok (points + historyPoints (stake.delegation.effectiveStake · w) stake.creditsObserved
        history, max observed (finalCredits history)) := by
  induction history generalizing points observed with
  | nil => simp [historyPoints, finalCredits, pure, Except.pure]
  | cons x history ih =>
    simp only [historyPoints, map_cons, sum_cons] at hfits ⊢
    have hround : addEpochPoints stake w (points, observed) x = .ok
        (points + entryPoints (stake.delegation.effectiveStake · w) stake.creditsObserved x,
          max observed x.2.1) :=
      addEpochPoints_eq (h.prev_le x mem_cons_self) (hobserved x rfl) (by omega)
    -- the next entry starts where this one ends
    have hnext : ∀ y ∈ history.head?, y.2.2 ≤ stake.creditsObserved →
        max observed x.2.1 = stake.creditsObserved := by
      intro y hy hle
      obtain ⟨history, rfl⟩ : ∃ l, history = y :: l := by
        rcases history with _ | ⟨z, l⟩
        · cases hy
        · cases hy
          exact ⟨l, rfl⟩
      have hchain : y.2.2 = x.2.1 := (isChain_cons_cons.1 h.chain).1
      have hprev : x.2.2 ≤ x.2.1 := h.prev_le x mem_cons_self
      rw [hobserved x rfl (by omega)]
      exact max_eq_left (by omega)
    rw [foldlM_cons]
    refine bind_eq_ok.2 ⟨_, hround, ?_⟩
    rw [ih h.tail hnext (by rw [historyPoints]; omega), historyPoints, Nat.add_assoc]
    have hfinal : max (max observed x.2.1) (finalCredits history) =
        max observed (finalCredits (x :: history)) := by
      rcases history with _ | ⟨y, history⟩
      · simp [finalCredits]
      · have hle : x.2.1 ≤ finalCredits (x :: y :: history) :=
          h.le_finalCredits x mem_cons_self
        rw [max_assoc, ← finalCredits_cons_cons x, max_eq_right hle]
    rw [hfinal]

lemma activationLoop_le (d : Delegation) (targetEpoch : Epoch) (w : WarmupParams) (fuel : Nat)
    (prevEpoch : Epoch) (prevClusterStake : StakeHistoryEntry) {current : Nat}
    (h : current ≤ d.stake) :
    d.activationLoop targetEpoch w fuel prevEpoch prevClusterStake current ≤ d.stake := by
  induction fuel generalizing prevEpoch prevClusterStake current with
  | zero => exact h
  | succ fuel ih =>
    unfold activationLoop
    dsimp only
    split
    · exact h
    · split
      · exact le_rfl
      · rename_i hlt
        split
        · omega
        · split
          · exact ih _ _ (by omega)
          · omega

lemma deactivationLoop_le (targetEpoch : Epoch) (w : WarmupParams) (fuel : Nat) (prevEpoch : Epoch)
    (prevClusterStake : StakeHistoryEntry) (current : Nat) :
    deactivationLoop targetEpoch w fuel prevEpoch prevClusterStake current ≤ current := by
  induction fuel generalizing prevEpoch prevClusterStake current with
  | zero => exact le_rfl
  | succ fuel ih =>
    unfold deactivationLoop
    dsimp only
    split
    · exact le_rfl
    · split
      · exact Nat.sub_le _ _
      · split
        · exact Nat.sub_le _ _
        · split
          · exact le_trans (ih _ _ _) (Nat.sub_le _ _)
          · exact Nat.sub_le _ _

lemma stakeAndActivating_le (d : Delegation) (targetEpoch : Epoch) (w : WarmupParams) :
    (d.stakeAndActivating targetEpoch w).1 ≤ d.stake := by
  unfold stakeAndActivating
  split
  · exact le_rfl
  · split
    · exact Nat.zero_le _
    · split
      · exact Nat.zero_le _
      · split
        · exact Nat.zero_le _
        · split
          · exact activationLoop_le d targetEpoch w _ _ _ (Nat.zero_le _)
          · exact le_rfl

lemma effectiveStake_le (d : Delegation) (epoch : Epoch) (w : WarmupParams) :
    d.effectiveStake epoch w ≤ d.stake := by
  have hle := stakeAndActivating_le d epoch w
  unfold effectiveStake stakeActivatingAndDeactivating
  dsimp only
  split
  · split
    · exact hle
    · exact hle
  · split
    · exact hle
    · split
      · exact le_trans (deactivationLoop_le _ _ _ _ _ _) hle
      · exact Nat.zero_le _

lemma CreditHistory.sum_earned_le (h : CreditHistory history) :
    (history.map (fun x => x.2.1 - x.2.2)).sum + ((history.head?.map (·.2.2)).getD 0) ≤
      finalCredits history := by
  induction history with
  | nil => simp [finalCredits]
  | cons x history ih =>
    have hprev : x.2.2 ≤ x.2.1 := h.prev_le x mem_cons_self
    rcases history with _ | ⟨y, history⟩
    · simp only [finalCredits, map_cons, map_nil, sum_cons, sum_nil,
        head?_cons, getLast?_singleton, map_some, getD_some]
      omega
    · have hchain : y.2.2 = x.2.1 := (isChain_cons_cons.1 h.chain).1
      have htail := ih h.tail
      rw [finalCredits_cons_cons, map_cons, sum_cons]
      simp only [head?_cons, map_some, getD_some] at htail ⊢
      omega

lemma CreditHistory.points_le (h : CreditHistory history) {effective : Epoch → Nat} {bound : Nat}
    (hbound : ∀ e, effective e ≤ bound) (observed : Nat) :
    historyPoints effective observed history ≤ bound * finalCredits history := by
  have hsum : historyPoints effective observed history ≤
      (history.map (fun x => bound * (x.2.1 - x.2.2))).sum := by
    refine sum_le_sum fun x _ => ?_
    exact Nat.mul_le_mul (hbound x.1) (by omega)
  rw [sum_map_mul_left] at hsum
  exact le_trans hsum (Nat.mul_le_mul_left _ (le_trans (Nat.le_add_right _ _) h.sum_earned_le))

lemma finalCredits_eq (vs : VoteState) : finalCredits vs.epochCredits = vs.credits := by
  unfold finalCredits credits
  cases vs.epochCredits.getLast? <;> rfl

lemma CreditHistory.points_eq_zero (h : CreditHistory history) (effective : Epoch → Nat)
    (hobserved : finalCredits history ≤ observed) :
    historyPoints effective observed history = 0 := by
  refine sum_eq_zero fun n hn => ?_
  obtain ⟨x, hx, rfl⟩ := mem_map.1 hn
  have hle := h.le_finalCredits x hx
  rw [entryPoints, Nat.sub_eq_zero_of_le (by omega), Nat.mul_zero]

lemma calculateStakePointsAndCredits_eq (h : CreditHistory vs.epochCredits)
    (hcredits : vs.credits ≤ u64Max) (hstake : stake.delegation.stake ≤ u64Max)
    (hobserved : stake.creditsObserved ≤ vs.credits) (w : WarmupParams) :
    calculateStakePointsAndCredits stake vs w = .ok ⟨historyPoints
      (stake.delegation.effectiveStake · w) stake.creditsObserved vs.epochCredits,
      vs.credits, false⟩ := by
  unfold calculateStakePointsAndCredits
  rcases hobserved.eq_or_lt with heq | hlt
  · have hzero := h.points_eq_zero (stake.delegation.effectiveStake · w)
      (by rw [finalCredits_eq, heq] : finalCredits vs.epochCredits ≤ stake.creditsObserved)
    have hcompare : compare vs.credits stake.creditsObserved = .eq := Nat.compare_eq_eq.2 heq.symm
    rw [hzero]
    simp only [hcompare]
    rw [heq]
  · have hcompare : compare vs.credits stake.creditsObserved = .gt := Nat.compare_eq_gt.2 hlt
    have hfits : 0 + historyPoints (stake.delegation.effectiveStake · w) stake.creditsObserved
        vs.epochCredits ≤ u128Max := by
      have hle := h.points_le (fun e => le_trans (effectiveStake_le _ e w) hstake)
        stake.creditsObserved
      rw [finalCredits_eq] at hle
      have hmax : u64Max * vs.credits ≤ u128Max :=
        le_trans (Nat.mul_le_mul_left _ hcredits) (by decide)
      omega
    simp only [hcompare]
    rw [addEpochPoints_loop h (fun x _ _ => rfl) hfits, finalCredits_eq, max_eq_right hobserved,
      Nat.zero_add]
    rfl

def pointsUpTo (effective : Epoch → Nat) (observed limit : Nat) (history : List EpochCredits) :
    Nat :=
  (history.map (fun x => effective x.1 * (min x.2.1 limit - max x.2.2 observed))).sum

lemma CreditHistory.points_split (h : CreditHistory history) (effective : Epoch → Nat)
    (hle : observed ≤ limit) :
    historyPoints effective observed history =
      pointsUpTo effective observed limit history + historyPoints effective limit history := by
  have hentry : ∀ x ∈ history, entryPoints effective observed x =
      effective x.1 * (min x.2.1 limit - max x.2.2 observed) + entryPoints effective limit x := by
    intro x hx
    have hprev := h.prev_le x hx
    rw [entryPoints, entryPoints, ← Nat.mul_add]
    congr 1
    omega
  unfold historyPoints pointsUpTo
  rw [← sum_map_add, map_congr_left hentry]

def KeepsEntries (vs : VoteState) : List (Epoch × Nat) → Prop
  | [] => True
  | call :: calls =>
    ¬ DropsEntry vs.epochCredits call.1 ∧ KeepsEntries (vs.incrementCredits call.1 call.2) calls

lemma pointsUpTo_append (effective : Epoch → Nat) (observed limit : Nat)
    (history : List EpochCredits) (x : EpochCredits) :
    pointsUpTo effective observed limit (history ++ [x]) =
      pointsUpTo effective observed limit history +
        effective x.1 * (min x.2.1 limit - max x.2.2 observed) := by
  simp [pointsUpTo]

lemma pointsUpTo_increment (hlen : vs.epochCredits.length ≤ maxEpochCreditsHistory) {epoch : Epoch}
    (hkeep : ¬ DropsEntry vs.epochCredits epoch) (hsum : vs.credits + credits ≤ u64Max)
    (effective : Epoch → Nat) (observed : Nat) (hlimit : limit ≤ vs.credits) :
    pointsUpTo effective observed limit (vs.incrementCredits epoch credits).epochCredits =
      pointsUpTo effective observed limit vs.epochCredits := by
  rcases incrementCredits_cases vs epoch credits hlen with
    ⟨hnil, hresult⟩ | ⟨front, lastEpoch, c, p, hlast, hcases⟩
  · have hzero : limit = 0 := by
      rw [VoteState.credits, hnil] at hlimit
      exact Nat.le_zero.1 hlimit
    simp [hresult, hnil, pointsUpTo, hzero]
  · have hc : vs.credits = c := credits_of_last hlast
    rw [hc] at hlimit hsum
    have hadd : saturatingAddU64 c credits = c + credits := min_eq_left hsum
    rcases hcases with ⟨hsame, hresult⟩ | ⟨-, -, kept, ⟨rfl, -⟩ | ⟨-, hdrops⟩, hresult⟩
    · rw [hresult, hlast, pointsUpTo_append, pointsUpTo_append, hadd]
      rcases hsame with rfl | rfl
      · rw [min_eq_right (by omega : limit ≤ c + credits), min_eq_right hlimit]
      · -- an entry without credits gives no points in any epoch
        have hempty : ∀ n, c ≤ n → min n limit - max c observed = 0 := by
          intro n hn
          omega
        simp [hempty _ (Nat.le_add_right c credits), hempty _ le_rfl]
    · have hempty : min (c + credits) limit - max c observed = 0 := by omega
      rw [hresult, pointsUpTo_append, hadd]
      simp [hempty]
    · exact absurd hdrops hkeep

lemma awardCredits_awarded (h : Awarded vs total epochs)
    (calls : List (Epoch × Nat)) (hsorted : (epochs ++ calls.map Prod.fst).Pairwise (· ≤ ·))
    (htotal : total + (calls.map Prod.snd).sum ≤ u64Max) :
    Awarded (awardCredits vs calls) (total + (calls.map Prod.snd).sum)
      (epochs ++ calls.map Prod.fst) ∧
    (KeepsEntries vs calls → ∀ effective observed limit, limit ≤ vs.credits →
      pointsUpTo effective observed limit (awardCredits vs calls).epochCredits =
        pointsUpTo effective observed limit vs.epochCredits) := by
  induction calls generalizing vs total epochs with
  | nil => exact ⟨by simpa [awardCredits] using h, fun _ _ _ _ _ => rfl⟩
  | cons call calls ih =>
    simp only [map_cons, sum_cons] at htotal hsorted ⊢
    rw [← Nat.add_assoc] at htotal ⊢
    rw [append_cons] at hsorted ⊢
    have hepoch : ∀ e ∈ epochs, e ≤ call.1 := by
      intro e he
      exact (pairwise_append.1 (pairwise_append.1 hsorted).1).2.2 e he _ (by simp)
    have hnext := h.increment hepoch (by omega : total + call.2 ≤ u64Max)
    obtain ⟨hawarded, hrest⟩ := ih hnext hsorted htotal
    refine ⟨hawarded, fun hkeep effective observed limit hlimit => ?_⟩
    have hcredits := h.credits_eq
    have hle : limit ≤ (vs.incrementCredits call.1 call.2).credits := by
      rw [hnext.credits_eq]
      omega
    have hfirst := pointsUpTo_increment h.history.length_le hkeep.1
      (by omega : vs.credits + call.2 ≤ u64Max) effective observed hlimit
    exact (hrest hkeep.2 effective observed limit hle).trans hfirst

lemma CreditHistory.pointsUpTo_finalCredits (h : CreditHistory history) (effective : Epoch → Nat)
    (observed : Nat) :
    pointsUpTo effective observed (finalCredits history) history =
      historyPoints effective observed history := by
  unfold pointsUpTo historyPoints
  congr 1
  refine map_congr_left fun x hx => ?_
  rw [entryPoints, min_eq_left (h.le_finalCredits x hx)]

/-- A stake is given points for exactly the credits that it has not observed, and while no entry is
dropped it makes no difference whether it observes the credits at once or in two steps. -/
theorem stake_points_count_credits_once (vs₀ : VoteState) (calls : List (Epoch × Nat))
    (hnew : vs₀.epochCredits = []) (hsorted : (calls.map Prod.fst).Pairwise (· ≤ ·))
    (htotal : (calls.map Prod.snd).sum ≤ u64Max) :
    let vs := awardCredits vs₀ calls
    vs.epochCredits.length ≤ 64 ∧
    vs.epochCredits.Pairwise (fun a b => a.1 < b.1) ∧
    (∀ x ∈ vs.epochCredits, x.2.2 ≤ x.2.1) ∧
    vs.epochCredits.IsChain (fun a b => b.2.2 = a.2.1) ∧
    (∀ stake w, stake.creditsObserved ≤ vs.credits → stake.delegation.stake ≤ u64Max →
      calculateStakePointsAndCredits stake vs w = .ok ⟨(vs.epochCredits.map (fun x =>
        stake.delegation.effectiveStake x.1 w * (x.2.1 - max x.2.2 stake.creditsObserved))).sum,
        vs.credits, false⟩) ∧
    ∀ more, ((calls ++ more).map Prod.fst).Pairwise (· ≤ ·) →
      ((calls ++ more).map Prod.snd).sum ≤ u64Max → KeepsEntries vs more →
      ∀ stake w, stake.creditsObserved ≤ vs.credits → stake.delegation.stake ≤ u64Max →
      ∃ first second once, calculateStakePointsAndCredits stake vs w = .ok first ∧
        calculateStakePointsAndCredits
          { stake with creditsObserved := first.newCreditsObserved } (awardCredits vs more) w =
            .ok second ∧
        calculateStakePointsAndCredits stake (awardCredits vs more) w = .ok once ∧
        once.points = first.points + second.points ∧
        once.newCreditsObserved = second.newCreditsObserved := by
  have hstart : Awarded vs₀ 0 [] :=
    ⟨hnew ▸ creditHistory_nil, by simp [credits, hnew], by simp [hnew]⟩
  have h := (awardCredits_awarded hstart calls (by simpa using hsorted) (by simpa using htotal)).1
  simp only [Nat.zero_add, nil_append] at h
  intro vs
  have hcredits : vs.credits ≤ u64Max := by
    rw [h.credits_eq]
    exact htotal
  refine ⟨h.history.length_le, h.history.epochs_lt, h.history.prev_le, h.history.chain, ?_, ?_⟩
  · intro stake w hobserved hstake
    exact calculateStakePointsAndCredits_eq h.history hcredits hstake hobserved w
  · intro more hsorted' htotal' hkeep stake w hobserved hstake
    rw [map_append] at hsorted'
    rw [map_append, sum_append] at htotal'
    obtain ⟨h', hsame⟩ := awardCredits_awarded h more hsorted' htotal'
    have hcredits' : (awardCredits vs more).credits ≤ u64Max := by
      rw [h'.credits_eq]
      exact htotal'
    have hmore : vs.credits ≤ (awardCredits vs more).credits := by
      rw [h'.credits_eq, h.credits_eq]
      exact Nat.le_add_right _ _
    have hsecond := @calculateStakePointsAndCredits_eq _ { stake with creditsObserved := vs.credits }
      h'.history hcredits' hstake hmore w
    refine ⟨_, _, _, calculateStakePointsAndCredits_eq h.history hcredits hstake hobserved w,
      hsecond,
      calculateStakePointsAndCredits_eq h'.history hcredits' hstake (hobserved.trans hmore) w,
      ?_, rfl⟩
    dsimp only
    rw [h'.history.points_split _ hobserved, hsame hkeep _ _ _ (le_refl vs.credits),
      ← finalCredits_eq vs, h.history.pointsUpTo_finalCredits]

/-- Three credits in epoch 3, and nothing in the next two. -/
def idleCalls : List (Epoch × Nat) := [(3, 2), (3, 1), (4, 0), (5, 0)]

/-- A stake that was effective from the start and has observed one credit. -/
def bootstrapStake : Stake := ⟨⟨7, 100, u64Max, u64Max⟩, 1⟩

def noWarmup : WarmupParams := ⟨[], none, exactPortion⟩

/-- Four more credits in epoch 6, observed after the first three or together with them. -/
theorem idleCalls_count_credits_once : ∃ first second once,
    calculateStakePointsAndCredits bootstrapStake (awardCredits .default idleCalls) noWarmup =
      .ok first ∧
    calculateStakePointsAndCredits { bootstrapStake with creditsObserved := first.newCreditsObserved }
      (awardCredits (awardCredits .default idleCalls) [(6, 4)]) noWarmup = .ok second ∧
    calculateStakePointsAndCredits bootstrapStake
      (awardCredits (awardCredits .default idleCalls) [(6, 4)]) noWarmup = .ok once ∧
    first.points = 200 ∧ once.points = first.points + second.points := by
  have h := stake_points_count_credits_once default idleCalls rfl (by decide) (by decide)
  obtain ⟨first, second, once, hfirst, hsecond, honce, hpoints, -⟩ :=
    h.2.2.2.2.2 [(6, 4)] (by decide) (by decide)
      ⟨by rintro ⟨_, _, _, hlast, -, hne, -⟩; cases hlast; exact hne rfl, trivial⟩
      bootstrapStake noWarmup (by decide) (by decide)
  refine ⟨first, second, once, hfirst, hsecond, honce, ?_, hpoints⟩
  have hvalue : calculateStakePointsAndCredits bootstrapStake (awardCredits .default idleCalls)
      noWarmup = .ok ⟨200, 3, false⟩ := by decide
  rw [hvalue] at hfirst
  cases hfirst
  rfl

end Nuah.Proofs
