import Nuah.Proofs.ForkUpdates

/-!
# The invariant of the fork choice

Every node is up to date with its children, and validity marks are consistent along the
tree. A batch that schedules all ancestors of the nodes it touches restores the invariant.
-/

namespace Nuah.Proofs
open HeaviestSubtreeForkChoice

variable {n : SlotHashKey} {i' : ForkInfo} {fc fc' : HeaviestSubtreeForkChoice}
  {ops : SlotHashKey → KeyOperations}

/-- A node is up to date with its children. The best slot of a node that is not a candidate
is only known to lie below it. -/
structure UpToDateAt (fc : HeaviestSubtreeForkChoice) (n : SlotHashKey) (i : ForkInfo) : Prop where
  weight_eq : i.stakeVotedSubtree = i.stakeVotedAt + (i.children.map (weight fc)).sum
  deepest : DeepestUpToDate fc n i.children i.height i.deepestSlot
  best : i.isCandidate = true → BestUpToDate fc n i.children i.bestSlot
  best_up : Up fc i.bestSlot n

/-- Duplicate confirmation goes up the tree, invalidity goes down. -/
structure MarksConsistent (fc : HeaviestSubtreeForkChoice) : Prop where
  confirmed_up : ∀ n i p ip, fc.info n = some i → i.parent = some p → fc.info p = some ip →
    i.isDuplicateConfirmed = true → ip.isDuplicateConfirmed = true
  confirmed_valid : ∀ n i, fc.info n = some i → i.isDuplicateConfirmed = true →
    i.latestInvalidAncestor = none
  mark_le : ∀ n i s, fc.info n = some i → i.latestInvalidAncestor = some s → s ≤ n.slot
  mark_down : ∀ n i p ip s, fc.info n = some i → i.parent = some p → fc.info p = some ip →
    ip.latestInvalidAncestor = some s → ∃ s', i.latestInvalidAncestor = some s' ∧ s ≤ s'

structure Sound (fc : HeaviestSubtreeForkChoice) : Prop where
  wf : WellFormed fc
  upToDate : ∀ n i, fc.info n = some i → UpToDateAt fc n i
  marks : MarksConsistent fc

structure SameTree (fc fc' : HeaviestSubtreeForkChoice) : Prop where
  treeRoot_eq : fc'.treeRoot = fc.treeRoot
  info_none : ∀ n, fc.info n = none → fc'.info n = none
  info_some : ∀ n i, fc.info n = some i → ∃ i', fc'.info n = some i' ∧ i'.parent = i.parent ∧
    i'.children = i.children

namespace SameTree

variable (h : SameTree fc fc')

include h

lemma info_back (hi' : fc'.info n = some i') :
    ∃ i, fc.info n = some i ∧ i'.parent = i.parent ∧ i'.children = i.children := by
  cases hi : fc.info n with
  | none => simp [h.info_none n hi] at hi'
  | some i =>
    obtain ⟨i'', hi'', hp, hc⟩ := h.info_some n i hi
    obtain rfl := Option.mem_unique hi'' hi'
    exact ⟨i, rfl, hp, hc⟩

lemma info_ne_none_iff (n : SlotHashKey) : fc'.info n ≠ none ↔ fc.info n ≠ none := by
  cases hi : fc.info n with
  | none => simp [h.info_none n hi]
  | some i =>
    obtain ⟨i', hi', -⟩ := h.info_some n i hi
    simp [hi']

lemma parent_eq (n : SlotHashKey) : fc'.parent n = fc.parent n := by
  cases hi : fc.info n with
  | none => simp [parent, hi, h.info_none n hi]
  | some i =>
    obtain ⟨i', hi', hp, -⟩ := h.info_some n i hi
    simp [parent, hi, hi', hp]

lemma up_eq : Up fc' = Up fc := by
  unfold Up
  congr 1
  funext c p
  rw [h.parent_eq c]

lemma wellFormed (wf : WellFormed fc) : WellFormed fc' := by
  refine ⟨?_, ?_, ?_, ?_⟩
  · obtain ⟨i, hi, hp⟩ := wf.root_mem
    obtain ⟨i', hi', hp', -⟩ := h.info_some _ i hi
    exact ⟨i', h.treeRoot_eq ▸ hi', hp'.trans hp⟩
  · intro n i' hi' hne
    obtain ⟨i, hi, hp, -⟩ := h.info_back hi'
    obtain ⟨p, ip, hparent, hip, hmem⟩ := wf.parent_mem n i hi (h.treeRoot_eq ▸ hne)
    obtain ⟨ip', hip', -, hc⟩ := h.info_some p ip hip
    exact ⟨p, ip', hp.trans hparent, hip', hc ▸ hmem⟩
  · intro n i' c hi' hc
    obtain ⟨i, hi, -, hchildren⟩ := h.info_back hi'
    obtain ⟨ic, hic, hparent, hlt⟩ := wf.child_mem n i c hi (hchildren ▸ hc)
    obtain ⟨ic', hic', hp, -⟩ := h.info_some c ic hic
    exact ⟨ic', hic', hp.trans hparent, hlt⟩
  · intro n i' hi'
    obtain ⟨i, hi, -, hchildren⟩ := h.info_back hi'
    rw [hchildren]
    exact wf.children_sorted n i hi

end SameTree

lemma ProcessedBy.sameTree (h : ProcessedBy fc ops fc') : SameTree fc fc' := by
  refine ⟨h.treeRoot_eq, h.info_none, ?_⟩
  intro n i hi
  obtain ⟨i', hi', hp⟩ := h.info_some n i hi
  exact ⟨i', hi', hp.frame.1, hp.frame.2.1⟩

lemma WellFormed.child_induction (wf : WellFormed fc) {P : SlotHashKey → Prop}
    (step : ∀ n i, fc.info n = some i → (∀ c ∈ i.children, P c) → P n) :
    ∀ n i, fc.info n = some i → P n := by
  intro n i hi
  induction hlen : (nodesFrom fc n).length using Nat.strong_induction_on generalizing n i with
  | _ len ih =>
    apply step n i hi
    intro c hc
    obtain ⟨ic, hic, -⟩ := wf.child_mem n i c hi hc
    have hlt := wf.nodesFrom_lt hi (wf.parent_iff.2 ⟨i, hi, hc⟩)
    exact ih _ (hlen ▸ hlt) c ic hic rfl

/-- The batch schedules the parent of every node that it touches, and every node whose marks
it changes. -/
structure Scheduled (fc : HeaviestSubtreeForkChoice) (ops : SlotHashKey → KeyOperations) : Prop where
  parent : ∀ n p, fc.parent n = some p → ops n ≠ .none → (ops p).aggregate = true
  marked : ∀ n, (ops n).markValid ≠ none ∨ (ops n).markInvalid ≠ none → (ops n).aggregate = true

section Processed
lemma ProcessedBy.weight_deepest_best (h : ProcessedBy fc ops fc') (hscheduled : Scheduled fc ops)
    (wf : WellFormed fc) (hsafe : ∀ n i, fc.info n = some i → SafeOperations (ops n) i)
    (hbefore : ∀ n i, fc.info n = some i → (ops n).aggregate = false → UpToDateAt fc n i)
    {i : ForkInfo} (hi : fc.info n = some i) (hi' : fc'.info n = some i') :
    i'.stakeVotedSubtree = i'.stakeVotedAt + (i'.children.map (weight fc')).sum ∧
      DeepestUpToDate fc' n i'.children i'.height i'.deepestSlot ∧
      (i'.isCandidate = true → BestUpToDate fc' n i'.children i'.bestSlot) := by
  have hp := h.keyProcessed hi hi'
  unfold KeyProcessed at hp
  split at hp
  · obtain ⟨hat, -, hchildren⟩ := hp.frame
    have hch : i'.children = (localUpdate n (ops n) i).children := hchildren
    rw [hch]
    exact ⟨by rw [hp.weight_eq, hat], hp.deepest, fun _ => hp.best⟩
  · rename_i hagg
    have hold := hbefore n i hi (by simpa using hagg)
    have huntouched : ∀ c ∈ i.children, fc.info c = fc'.info c := by
      intro c hc
      refine (h.untouched ?_).symm
      by_contra htouched
      exact hagg (hscheduled.parent c n (wf.parent_iff.2 ⟨i, hi, hc⟩) htouched)
    have hmarks : (ops n).markValid = none ∧ (ops n).markInvalid = none := by
      constructor
      · by_contra hv
        exact hagg (hscheduled.marked n (.inl hv))
      · by_contra hv
        exact hagg (hscheduled.marked n (.inr hv))
    subst hp
    refine ⟨?_, hold.deepest.congr (fun c hc => sameDeepest_of_info (huntouched c hc)), ?_⟩
    · have hle : (ops n).subtract.getD 0 ≤ i.stakeVotedAt := by
        cases hsub : (ops n).subtract with
        | none => simp
        | some stake => simpa using ((hsafe n i hi).subtract_le stake hsub).1
      have hw := hold.weight_eq
      rw [map_weight_congr (fun c hc => (sameBest_of_info (huntouched c hc)).weight_eq)] at hw
      simp only [localUpdate]
      omega
    · intro hcand
      refine (hold.best ?_).congr fun c hc => sameBest_of_info (huntouched c hc)
      simpa [localUpdate, ForkInfo.isCandidate, hmarks.1, hmarks.2, clearMark, raiseMark] using hcand

/-- A batch that schedules enough brings every node up to date. -/
theorem ProcessedBy.upToDate (h : ProcessedBy fc ops fc') (hscheduled : Scheduled fc ops)
    (wf : WellFormed fc) (hsafe : ∀ n i, fc.info n = some i → SafeOperations (ops n) i)
    (hbefore : ∀ n i, fc.info n = some i → (ops n).aggregate = false → UpToDateAt fc n i) :
    ∀ n i', fc'.info n = some i' → UpToDateAt fc' n i' := by
  have htree := h.sameTree
  have wf' := htree.wellFormed wf
  -- the best slot lies below the node: by induction from the leaves
  have hup : ∀ n i', fc'.info n = some i' → Up fc' (bestOf fc' n) n := by
    refine wf'.child_induction ?_
    intro n i' hi' ih
    obtain ⟨i, hi, -, hchildren⟩ := htree.info_back hi'
    have hp := h.keyProcessed hi hi'
    rw [bestOf_of_info hi']
    unfold KeyProcessed at hp
    split at hp
    · rcases hp.best with ⟨-, hbest⟩ | ⟨c, hc, hbest⟩
      · rw [hbest]
        exact Up.refl fc' n
      · have hmem : c ∈ i.children := List.mem_of_mem_filter hc.1
        rw [hbest]
        exact (ih c (hchildren ▸ hmem)).trans
          (Up.of_parent (wf'.parent_iff.2 ⟨i', hi', hchildren ▸ hmem⟩))
    · rename_i hagg
      subst hp
      rw [htree.up_eq]
      exact (hbefore n i hi (by simpa using hagg)).best_up
  intro n i' hi'
  obtain ⟨i, hi, -⟩ := htree.info_back hi'
  obtain ⟨hweight, hdeepest, hbest⟩ := h.weight_deepest_best hscheduled wf hsafe hbefore hi hi'
  exact ⟨hweight, hdeepest, hbest, bestOf_of_info hi' ▸ hup n i' hi'⟩

/-- A batch without marks leaves all marks as they are: a confirmed child has a confirmed
parent already. -/
lemma ProcessedBy.marks_eq (h : ProcessedBy fc ops fc') (wf : WellFormed fc) (hmarks : MarksConsistent fc)
    (hnone : ∀ n, (ops n).markValid = none ∧ (ops n).markInvalid = none) :
    ∀ n i, fc.info n = some i → ∀ i', fc'.info n = some i' →
      i'.isDuplicateConfirmed = i.isDuplicateConfirmed ∧
      i'.latestInvalidAncestor = i.latestInvalidAncestor := by
  have key : ∀ n i, fc.info n = some i → ∀ i₀ i', fc.info n = some i₀ → fc'.info n = some i' →
      i'.isDuplicateConfirmed = i₀.isDuplicateConfirmed ∧
      i'.latestInvalidAncestor = i₀.latestInvalidAncestor := by
    refine wf.child_induction ?_
    intro n i hi ih i₀ i' hi₀ hi'
    obtain rfl := Option.mem_unique hi₀ hi
    have hp := h.keyProcessed hi hi'
    have hlocal : (localUpdate n (ops n) i₀).isDuplicateConfirmed = i₀.isDuplicateConfirmed ∧
        (localUpdate n (ops n) i₀).latestInvalidAncestor = i₀.latestInvalidAncestor := by
      simp [localUpdate, hnone n, clearMark, raiseMark]
    unfold KeyProcessed at hp
    split at hp
    · have hm := hp.marks
      split at hm
      · rename_i hany
        obtain ⟨c, hc, hconf⟩ := List.any_eq_true.1 hany
        obtain ⟨ic, hic, hparent, -⟩ := wf.child_mem n i₀ c hi hc
        obtain ⟨ic', hic', -⟩ := h.info_some c ic hic
        rw [confirmed_of_info hic', (ih c hc ic ic' hic hic').1] at hconf
        have hself := hmarks.confirmed_up c ic n i₀ hic hparent hi hconf
        rw [hself, hmarks.confirmed_valid n i₀ hi hself]
        exact hm
      · rw [hlocal.1, hlocal.2] at hm
        exact hm
    · subst hp
      exact hlocal
  exact fun n i hi i' hi' => key n i hi i i' hi hi'

end Processed

structure SameForks (fc fc' : HeaviestSubtreeForkChoice) : Prop extends SameTree fc fc' where
  marks_eq : ∀ n i, fc.info n = some i → ∀ i', fc'.info n = some i' →
    i'.isDuplicateConfirmed = i.isDuplicateConfirmed ∧
    i'.latestInvalidAncestor = i.latestInvalidAncestor

/-- Marks stay consistent where every node keeps its marks and gets no new parent. -/
lemma MarksConsistent.of_back (hmarks : MarksConsistent fc)
    (h : ∀ n i', fc'.info n = some i' → ∃ i, fc.info n = some i ∧
      (∀ p, i'.parent = some p → i.parent = some p) ∧
      i'.isDuplicateConfirmed = i.isDuplicateConfirmed ∧
      i'.latestInvalidAncestor = i.latestInvalidAncestor) : MarksConsistent fc' := by
  refine ⟨?_, ?_, ?_, ?_⟩
  · intro n i' p ip' hi' hp' hip' hconf
    obtain ⟨i, hi, hp, heq, -⟩ := h n i' hi'
    obtain ⟨ip, hip, -, heqp, -⟩ := h p ip' hip'
    rw [heqp]
    exact hmarks.confirmed_up n i p ip hi (hp p hp') hip (heq ▸ hconf)
  · intro n i' hi' hconf
    obtain ⟨i, hi, -, heq, hmark⟩ := h n i' hi'
    rw [hmark]
    exact hmarks.confirmed_valid n i hi (heq ▸ hconf)
  · intro n i' s hi' hs
    obtain ⟨i, hi, -, -, hmark⟩ := h n i' hi'
    exact hmarks.mark_le n i s hi (hmark ▸ hs)
  · intro n i' p ip' s hi' hp' hip' hs
    obtain ⟨i, hi, hp, -, hmark⟩ := h n i' hi'
    obtain ⟨ip, hip, -, -, hmarkp⟩ := h p ip' hip'
    rw [hmark]
    exact hmarks.mark_down n i p ip s hi (hp p hp') hip (hmarkp ▸ hs)

lemma SameForks.marksConsistent (h : SameForks fc fc') (hmarks : MarksConsistent fc) :
    MarksConsistent fc' := by
  refine hmarks.of_back fun n i' hi' => ?_
  obtain ⟨i, hi, hp, -⟩ := h.info_back hi'
  exact ⟨i, hi, fun p hp' => hp ▸ hp', h.marks_eq n i hi i' hi'⟩

end Nuah.Proofs
