import Nuah.Proofs.ForkSound

/-!
# Adding votes

A batch of votes moves the stake of each voter from its old latest vote to the new one. The
subtracted stake was counted before, so nothing underflows.
-/

namespace Nuah.Proofs
open HeaviestSubtreeForkChoice UpdateOperations List
open Std (TreeMap)

variable {votes : TreeMap Pubkey SlotHashKey} {pubkey : Pubkey} {voters : Finset Pubkey}
  {b' : VoteBatch}

variable {fc : HeaviestSubtreeForkChoice} {ops : UpdateOperations} {env : VoteStakes}
  {b : VoteBatch}

/-- The stake of the voters whose latest vote is `n`, in the epoch of `n`. -/
def votedStake (env : VoteStakes) (votes : TreeMap Pubkey SlotHashKey) (n : SlotHashKey) : Nat :=
  ∑ pubkey ∈ votes.keys.toFinset with votes[pubkey]? = some n, env.stake pubkey n.slot

def VotesCounted (env : VoteStakes) (fc : HeaviestSubtreeForkChoice) : Prop :=
  ∀ n i, fc.info n = some i → i.stakeVotedAt = votedStake env fc.latestVotes n

/-- The part of a vote map's stake on `n` that comes from `voters`. -/
def stakeFrom (env : VoteStakes) (votes : TreeMap Pubkey SlotHashKey) (n : SlotHashKey)
    (voters : Finset Pubkey) : Nat :=
  ∑ pubkey ∈ voters, if votes[pubkey]? = some n then env.stake pubkey n.slot else 0

lemma mem_keys_of_getElem? {n : SlotHashKey} (h : votes[pubkey]? = some n) :
    pubkey ∈ votes.keys.toFinset := by
  rw [mem_toFinset, TreeMap.mem_keys, TreeMap.mem_iff_isSome_getElem?]
  simp [h]

lemma votedStake_eq_stakeFrom (env : VoteStakes) (hsub : votes.keys.toFinset ⊆ voters)
    (n : SlotHashKey) :
    votedStake env votes n = stakeFrom env votes n voters := by
  unfold votedStake stakeFrom
  rw [Finset.sum_filter]
  apply Finset.sum_subset hsub
  intro pubkey _ hnot
  rw [if_neg]
  intro h
  exact hnot (mem_keys_of_getElem? h)

lemma stakeFrom_le_votedStake (env : VoteStakes) (votes : TreeMap Pubkey SlotHashKey) (n : SlotHashKey)
    (voters : Finset Pubkey) : stakeFrom env votes n voters ≤ votedStake env votes n := by
  have hsub : votes.keys.toFinset ⊆ votes.keys.toFinset ∪ voters := Finset.subset_union_left
  rw [votedStake_eq_stakeFrom env hsub n]
  exact Finset.sum_le_sum_of_subset Finset.subset_union_right

lemma votedStake_insert (env : VoteStakes) (votes : TreeMap Pubkey SlotHashKey) (pubkey : Pubkey)
    (new n : SlotHashKey) :
    votedStake env (votes.insert pubkey new) n +
        (if votes[pubkey]? = some n then env.stake pubkey n.slot else 0) =
      votedStake env votes n + (if new = n then env.stake pubkey n.slot else 0) := by
  have hlookup : ∀ q, (votes.insert pubkey new)[q]? = if pubkey = q then some new else votes[q]? := by
    intro q
    simp [TreeMap.getElem?_insert]
  have hnew : (votes.insert pubkey new).keys.toFinset ⊆ insert pubkey votes.keys.toFinset := by
    intro q hq
    rw [mem_toFinset, TreeMap.mem_keys, TreeMap.mem_iff_isSome_getElem?, hlookup] at hq
    rw [Finset.mem_insert, mem_toFinset, TreeMap.mem_keys, TreeMap.mem_iff_isSome_getElem?]
    by_cases hpq : pubkey = q
    · exact .inl hpq.symm
    · rw [if_neg hpq] at hq
      exact .inr hq
  rw [votedStake_eq_stakeFrom env hnew, votedStake_eq_stakeFrom env (Finset.subset_insert pubkey _)]
  unfold stakeFrom
  rw [← Finset.add_sum_erase _ _ (Finset.mem_insert_self pubkey votes.keys.toFinset),
    ← Finset.add_sum_erase _ _ (Finset.mem_insert_self pubkey votes.keys.toFinset)]
  have hrest : ∀ q ∈ (insert pubkey votes.keys.toFinset).erase pubkey,
      (if (votes.insert pubkey new)[q]? = some n then env.stake q n.slot else 0) =
        if votes[q]? = some n then env.stake q n.slot else 0 := by
    intro q hq
    rw [hlookup, if_neg (Finset.ne_of_mem_erase hq).symm]
  rw [Finset.sum_congr rfl hrest, hlookup, if_pos rfl]
  simp only [Option.some.injEq]
  omega

/-- The schedule of a batch of votes: closed under ancestors, and without marks. -/
structure VoteSchedule (fc : HeaviestSubtreeForkChoice) (ops : UpdateOperations) : Prop where
  closed : ScheduleClosed fc ops
  touched : ∀ n p, fc.parent n = some p → opsAt ops n ≠ .none →
    (opsAt ops p).aggregate = true
  unmarked : ∀ n, (opsAt ops n).markValid = none ∧
    (opsAt ops n).markInvalid = none

lemma voteSchedule_empty (fc : HeaviestSubtreeForkChoice) : VoteSchedule fc ∅ := by
  refine ⟨?_, ?_, ?_⟩
  · intro n p _ h
    simp [opsAt_empty, KeyOperations.none] at h
  · intro n p _ h
    exact absurd (opsAt_empty n) h
  · intro n
    simp [opsAt_empty, KeyOperations.none]

lemma VoteSchedule.touch (wf : WellFormed fc) (h : VoteSchedule fc ops) (key : SlotHashKey)
    (f : KeyOperations → KeyOperations)
    (hf : ∀ o, (f o).aggregate = o.aggregate ∧ (f o).markValid = o.markValid ∧ (f o).markInvalid = o.markInvalid) :
    VoteSchedule fc (fc.insertAggregateOperations (UpdateOperations.update ops key f) key) ∧
      ∀ n, (opsAt
          (fc.insertAggregateOperations (UpdateOperations.update ops key f) key) n).subtract =
          (if key = n then f (opsAt ops n) else opsAt ops n).subtract ∧
        (opsAt
          (fc.insertAggregateOperations (UpdateOperations.update ops key f) key) n).add =
          (if key = n then f (opsAt ops n) else opsAt ops n).add := by
  have hflag : ∀ n, (opsAt (UpdateOperations.update ops key f) n).aggregate =
      (opsAt ops n).aggregate := by
    intro n
    rw [opsAt_update]
    split
    · exact (hf _).1
    · rfl
  have hops := opsAt_insertAggregateOperations wf (UpdateOperations.update ops key f) key (by
    intro a _ _ ha b hab
    rw [hflag] at ha ⊢
    exact h.closed.up hab ha)
  refine ⟨⟨?_, ?_, ?_⟩, ?_⟩
  · intro n p hp hn
    rw [hops] at hn ⊢
    split at hn
    · rename_i hmem
      rw [if_pos (wf.parent_mem_ancestorIterator (wf.mem_ancestorIterator.1 hmem).1 hp)]
    · rw [hflag] at hn
      split
      · rfl
      · rw [hflag]
        exact h.closed n p hp hn
  · intro n p hp hn
    rw [hops] at hn ⊢
    split
    · rfl
    · rename_i hnot
      rw [hflag]
      apply h.touched n p hp
      rw [if_neg] at hn
      · rw [opsAt_update] at hn
        split at hn
        · rename_i heq
          exact absurd (wf.parent_mem_ancestorIterator (heq ▸ Up.refl fc key) hp) hnot
        · exact hn
      · intro hmem
        exact hnot (wf.parent_mem_ancestorIterator (wf.mem_ancestorIterator.1 hmem).1 hp)
  · intro n
    have hsame : (opsAt (UpdateOperations.update ops key f) n).markValid = none ∧
        (opsAt (UpdateOperations.update ops key f) n).markInvalid = none := by
      rw [opsAt_update]
      split
      · rw [(hf _).2.1, (hf _).2.2]
        exact h.unmarked n
      · exact h.unmarked n
    rw [hops]
    split <;> exact hsame
  · intro n
    rw [hops, opsAt_update]
    split <;> exact ⟨rfl, rfl⟩

/-- The stake that a batch takes from a node and the stake that it gives to it. -/
def subtracted (ops : UpdateOperations) (n : SlotHashKey) : Nat :=
  (opsAt ops n).subtract.getD 0

def added (ops : UpdateOperations) (n : SlotHashKey) : Nat := (opsAt ops n).add.getD 0

lemma removeOldVote_spec (wf : WellFormed fc) (env : VoteStakes) (h : VoteSchedule fc ops)
    (pubkey : Pubkey) (old : Option SlotHashKey) :
    VoteSchedule fc (fc.removeOldVote env ops pubkey old) ∧
      ∀ n, subtracted (fc.removeOldVote env ops pubkey old) n =
          subtracted ops n + (if old = some n then env.stake pubkey n.slot else 0) ∧
        added (fc.removeOldVote env ops pubkey old) n = added ops n := by
  unfold removeOldVote
  cases old with
  | none => exact ⟨h, by simp⟩
  | some key =>
    dsimp only
    split
    · obtain ⟨hschedule, hops⟩ := h.touch wf key
        (fun o => { o with subtract := some (o.subtract.getD 0 + env.stake pubkey key.slot) })
        (fun o => ⟨rfl, rfl, rfl⟩)
      refine ⟨hschedule, ?_⟩
      intro n
      obtain ⟨hsub, hadd⟩ := hops n
      unfold subtracted added subtractStake
      rw [hsub, hadd]
      by_cases hn : key = n <;> simp [hn]
    · rename_i hzero
      refine ⟨h, ?_⟩
      intro n
      refine ⟨?_, rfl⟩
      by_cases hn : key = n
      · subst hn
        simp only [if_true]
        omega
      · simp [hn]

lemma addStake_spec (wf : WellFormed fc) (h : VoteSchedule fc ops) (key : SlotHashKey)
    (stake : Nat) :
    VoteSchedule fc (fc.insertAggregateOperations (addStake ops key stake) key) ∧
      ∀ n, subtracted (fc.insertAggregateOperations (addStake ops key stake) key) n =
          subtracted ops n ∧
        added (fc.insertAggregateOperations (addStake ops key stake) key) n =
          added ops n + (if key = n then stake else 0) := by
  obtain ⟨hschedule, hops⟩ := h.touch wf key
    (fun o => { o with add := some (o.add.getD 0 + stake) }) fun o => ⟨rfl, rfl, rfl⟩
  refine ⟨hschedule, ?_⟩
  intro n
  obtain ⟨hsub, hadd⟩ := hops n
  unfold subtracted added addStake
  rw [hsub, hadd]
  by_cases hn : key = n <;> simp [hn]

structure BatchInvariant (env : VoteStakes) (fc : HeaviestSubtreeForkChoice) (b : VoteBatch) : Prop where
  schedule : VoteSchedule fc b.operations
  moved : ∀ n, votedStake env b.latestVotes n + subtracted b.operations n =
    votedStake env fc.latestVotes n + added b.operations n
  subtracted_le : ∀ n, subtracted b.operations n ≤
    stakeFrom env fc.latestVotes n b.observedPubkeys.toFinset
  unobserved : ∀ pubkey, pubkey ∉ b.observedPubkeys →
    b.latestVotes[pubkey]? = fc.latestVotes[pubkey]?

lemma batchInvariant_start (env : VoteStakes) (fc : HeaviestSubtreeForkChoice) :
    BatchInvariant env fc ⟨fc.latestVotes, ∅, []⟩ := by
  refine ⟨voteSchedule_empty fc, ?_, ?_, fun _ _ => rfl⟩
  · intro n
    simp [subtracted, added, opsAt_empty, KeyOperations.none]
  · intro n
    simp [subtracted, opsAt_empty, KeyOperations.none]

lemma stakeFrom_insert (env : VoteStakes) (votes : TreeMap Pubkey SlotHashKey) (n : SlotHashKey)
    (h : pubkey ∉ voters) :
    stakeFrom env votes n (insert pubkey voters) =
      (if votes[pubkey]? = some n then env.stake pubkey n.slot else 0) + stakeFrom env votes n voters :=
  Finset.sum_insert h

lemma generateUpdateOperation_invariant (wf : WellFormed fc) (h : BatchInvariant env fc b)
    {pubkeyVote : Pubkey × SlotHashKey}
    (hok : fc.generateUpdateOperation env b pubkeyVote = some b') :
    BatchInvariant env fc b' := by
  obtain ⟨pubkey, new⟩ := pubkeyVote
  unfold generateUpdateOperation at hok
  dsimp only at hok
  split at hok
  · cases hok
    exact h
  split at hok
  · simp at hok
  rename_i hfresh
  have hfinset : pubkey ∉ b.observedPubkeys.toFinset := by simpa using hfresh
  split at hok
  · cases hok
    refine ⟨h.schedule, h.moved, ?_, ?_⟩
    · intro n
      refine (h.subtracted_le n).trans ?_
      rw [toFinset_cons, stakeFrom_insert env _ n hfinset]
      exact Nat.le_add_left _ _
    · intro q hq
      exact h.unobserved q fun hmem => hq (mem_cons_of_mem _ hmem)
  · cases hok
    have hold := h.unobserved pubkey hfresh
    obtain ⟨hschedule₁, hops₁⟩ := removeOldVote_spec wf env h.schedule pubkey b.latestVotes[pubkey]?
    obtain ⟨hschedule₂, hops₂⟩ := addStake_spec wf hschedule₁ new (env.stake pubkey new.slot)
    refine ⟨hschedule₂, ?_, ?_, ?_⟩
    · intro n
      have hmoved := h.moved n
      have hinsert := votedStake_insert env b.latestVotes pubkey new n
      have hnew : (if new = n then env.stake pubkey new.slot else 0) =
          if new = n then env.stake pubkey n.slot else 0 := by
        split
        · rename_i heq
          rw [heq]
        · rfl
      dsimp only
      rw [(hops₂ n).1, (hops₂ n).2, (hops₁ n).1, (hops₁ n).2, hnew]
      omega
    · intro n
      have hle := h.subtracted_le n
      dsimp only
      rw [(hops₂ n).1, (hops₁ n).1, toFinset_cons, stakeFrom_insert env _ n hfinset, hold]
      omega
    · intro q hq
      have hne : pubkey ≠ q := fun heq => hq (heq ▸ mem_cons_self)
      rw [TreeMap.getElem?_insert]
      simp only [Nat.compare_eq_eq, hne, if_false]
      exact h.unobserved q fun hmem => hq (mem_cons_of_mem _ hmem)

lemma generateUpdateOperations_invariant (wf : WellFormed fc) (votes : List (Pubkey × SlotHashKey))
    (h : BatchInvariant env fc b) (hok : votes.foldlM (fc.generateUpdateOperation env) b = some b') :
    BatchInvariant env fc b' := by
  refine SatisfiesM_Option_eq.1 (satisfiesM_foldlM h fun b₁ hb₁ vote _ => ?_) b' hok
  exact SatisfiesM_Option_eq.2 fun b₂ => generateUpdateOperation_invariant wf hb₁

lemma generateUpdateOperations_total (fc : HeaviestSubtreeForkChoice) (env : VoteStakes)
    (votes : List (Pubkey × SlotHashKey)) (hnodup : (votes.map Prod.fst).Nodup) (b : VoteBatch)
    (hfresh : ∀ vote ∈ votes, vote.1 ∉ b.observedPubkeys) :
    ∃ b', votes.foldlM (fc.generateUpdateOperation env) b = some b' := by
  induction votes generalizing b with
  | nil => exact ⟨b, rfl⟩
  | cons vote votes ih =>
    rw [map_cons, nodup_cons] at hnodup
    have hstep : ∃ b₁, fc.generateUpdateOperation env b vote = some b₁ ∧
        ∀ pubkey ∈ b₁.observedPubkeys, pubkey = vote.1 ∨ pubkey ∈ b.observedPubkeys := by
      unfold generateUpdateOperation
      dsimp only
      rw [if_neg (hfresh vote mem_cons_self)]
      split
      · exact ⟨b, rfl, fun _ h => .inr h⟩
      · split <;> exact ⟨_, rfl, fun _ h => mem_cons.1 h⟩
    obtain ⟨b₁, hb₁, hobserved⟩ := hstep
    obtain ⟨b', hb'⟩ := ih hnodup.2 b₁ (by
      intro later hlater hmem
      rcases hobserved _ hmem with heq | hmem
      · exact hnodup.1 (heq ▸ mem_map_of_mem hlater)
      · exact hfresh later (mem_cons_of_mem _ hlater) hmem)
    exact ⟨b', by simp [foldlM_cons, hb₁, hb']⟩

lemma Sound.withVotes (h : Sound fc) (votes : TreeMap Pubkey SlotHashKey) :
    Sound { fc with latestVotes := votes } where
  wf := ⟨h.wf.root_mem, h.wf.parent_mem, h.wf.child_mem, h.wf.children_sorted⟩
  upToDate := fun n i hi =>
    have hn := h.upToDate n i hi
    ⟨hn.weight_eq, hn.deepest, hn.best, hn.best_up⟩
  marks := ⟨h.marks.confirmed_up, h.marks.confirmed_valid, h.marks.mark_le, h.marks.mark_down⟩

lemma BatchInvariant.scheduled (h : BatchInvariant env fc b) :
    Scheduled fc (opsAt b.operations) := by
  refine ⟨h.schedule.touched, ?_⟩
  rintro n (hmark | hmark)
  · exact absurd (h.schedule.unmarked n).1 hmark
  · exact absurd (h.schedule.unmarked n).2 hmark

lemma BatchInvariant.safe (hbatch : BatchInvariant env fc b) (h : Sound fc)
    (hcounted : VotesCounted env fc) :
    ∀ n i, fc.info n = some i → SafeOperations (opsAt b.operations n) i := by
  intro n i hi
  refine ⟨?_, ?_⟩
  · intro stake hstake
    have hn : subtracted b.operations n ≤ votedStake env fc.latestVotes n :=
      (hbatch.subtracted_le n).trans (stakeFrom_le_votedStake env _ n _)
    rw [subtracted, hstake, Option.getD_some, ← hcounted n i hi] at hn
    have hw := (h.upToDate n i hi).weight_eq
    omega
  · intro hmark
    exact absurd (hbatch.schedule.unmarked n).2 hmark

variable {votes : List (Pubkey × SlotHashKey)}

/-- Once a safe batch is generated nothing panics. -/
theorem addVotes_of_safe (h : Sound fc) (hb : fc.generateUpdateOperations env votes = some b)
    (hsafe : ∀ n i, fc.info n = some i → SafeOperations (opsAt b.operations n) i) :
    ∃ fc' best, fc.addVotes env votes = some (fc', best) ∧ Sound fc' ∧ SameForks fc fc' ∧
      (VotesCounted env fc → VotesCounted env fc') := by
  have hbatch : BatchInvariant env fc b :=
    generateUpdateOperations_invariant h.wf votes (batchInvariant_start env fc) hb
  have hvoted := h.withVotes b.latestVotes
  obtain ⟨fc', hfc', hprocessed⟩ :=
    processUpdateOperations_spec b.operations hvoted.wf.childrenAbove hsafe
  have htree : SameTree { fc with latestVotes := b.latestVotes } fc' := hprocessed.sameTree
  have hscheduled : Scheduled { fc with latestVotes := b.latestVotes }
      (opsAt b.operations) := ⟨hbatch.scheduled.parent, hbatch.scheduled.marked⟩
  have hmarks := hprocessed.marks_eq hvoted.wf hvoted.marks hbatch.schedule.unmarked
  have hsound : Sound fc' := by
    refine ⟨htree.wellFormed hvoted.wf, ?_, (SameForks.mk htree hmarks).marksConsistent hvoted.marks⟩
    exact hprocessed.upToDate hscheduled hvoted.wf hsafe fun n i hi _ => hvoted.upToDate n i hi
  obtain ⟨iroot, hiroot, -⟩ := hsound.wf.root_mem
  refine ⟨fc', iroot.bestSlot, ?_, hsound,
    ⟨⟨htree.treeRoot_eq, htree.info_none, htree.info_some⟩, hmarks⟩, ?_⟩
  · have hbest : fc'.bestOverallSlot = some iroot.bestSlot := by
      simp [bestOverallSlot, bestSlot, hiroot]
    simp [addVotes, hb, hfc', hbest]
  · intro hcounted n i' hi'
    obtain ⟨i, hi, hp⟩ := hprocessed.info_back hi'
    have hat : i'.stakeVotedAt = i.stakeVotedAt - subtracted b.operations n + added b.operations n :=
      hp.frame.2.2
    have hn : subtracted b.operations n ≤ votedStake env fc.latestVotes n :=
      (hbatch.subtracted_le n).trans (stakeFrom_le_votedStake env _ n _)
    have hmoved := hbatch.moved n
    rw [hat, hcounted n i hi, hprocessed.latestVotes_eq]
    dsimp only
    omega

lemma addVotes_total (h : Sound fc) (hcounted : VotesCounted env fc)
    (hnodup : (votes.map Prod.fst).Nodup) :
    ∃ fc' best, fc.addVotes env votes = some (fc', best) := by
  obtain ⟨b, hb⟩ := generateUpdateOperations_total fc env votes hnodup
    ⟨fc.latestVotes, ∅, []⟩ (by simp)
  have hbatch : BatchInvariant env fc b :=
    generateUpdateOperations_invariant h.wf votes (batchInvariant_start env fc) hb
  obtain ⟨fc', best, heq, -⟩ := addVotes_of_safe h hb (hbatch.safe h hcounted)
  exact ⟨fc', best, heq⟩

lemma addVotes_preserves {fc' : HeaviestSubtreeForkChoice} (h : Sound fc) {best : SlotHashKey}
    (hok : fc.addVotes env votes = some (fc', best)) :
    Sound fc' ∧ SameForks fc fc' ∧ (VotesCounted env fc → VotesCounted env fc') := by
  obtain ⟨b, hb, hrun⟩ := Option.bind_eq_some_iff.1 hok
  obtain ⟨fc₁, hprocess, -⟩ := Option.bind_eq_some_iff.1 hrun
  have hsafe := processUpdateOperations_safe (h.withVotes b.latestVotes).wf.childrenAbove hprocess
  obtain ⟨fc'', best', heq, hsound, hsame, hcounted⟩ := addVotes_of_safe h hb hsafe
  obtain ⟨rfl, -⟩ := Prod.mk.inj (Option.mem_unique heq hok)
  exact ⟨hsound, hsame, hcounted⟩

end Nuah.Proofs
