import Nuah.Proofs.ForkRuns

/-!
# Best and deepest slots as a recomputation

The best and the deepest slot are found by a greedy descent, so the best slot of a valid root
is a function of the tree, the latest votes and the marks.
-/

namespace Nuah.Proofs
open HeaviestSubtreeForkChoice Champion Option

variable {n : SlotHashKey} {i : ForkInfo}

variable {fc fc' : HeaviestSubtreeForkChoice} {env : VoteStakes}

def childrenOf (fc : HeaviestSubtreeForkChoice) (n : SlotHashKey) : List SlotHashKey :=
  (fc.children n).getD []

lemma childrenOf_of_info (h : fc.info n = some i) : childrenOf fc n = i.children := by
  simp [childrenOf, children, h]

/-- Descending into the heaviest candidate child. -/
def BestFrom (fc : HeaviestSubtreeForkChoice) : SlotHashKey → SlotHashKey → Prop :=
  DescendsTo (fun n => (childrenOf fc n).filter (candidate fc)) (bestScore fc)

/-- Descending into the highest child, the heavier one of two as high ones. -/
def DeepestFrom (fc : HeaviestSubtreeForkChoice) : SlotHashKey → SlotHashKey → Prop :=
  DescendsTo (childrenOf fc) (depthScore fc)

section Descent
variable (h : Sound fc)
include h

lemma Sound.height_eq (hi : fc.info n = some i) :
    i.height = 1 + ((i.children.map (heightOf fc)).max?).getD 0 := by
  rcases (h.upToDate n i hi).deepest with ⟨hnil, hheight, -⟩ | ⟨c, hc, hheight, -⟩
  · simp [hnil, hheight]
  · have hmax : (i.children.map (heightOf fc)).max? = some (heightOf fc c) := by
      rw [List.max?_eq_some_iff]
      refine ⟨List.mem_map_of_mem hc.1, ?_⟩
      intro height hmem
      obtain ⟨c', hc', rfl⟩ := List.mem_map.1 hmem
      exact heightOf_le_of_depthScore_le (hc.2 c' hc')
    rw [hmax, hheight, getD_some, Nat.add_comm]

lemma Sound.deepestFrom : ∀ n i, fc.info n = some i → DeepestFrom fc n (deepestOf fc n) := by
  refine h.wf.child_induction ?_
  intro n i hi ih
  rw [deepestOf_of_info hi]
  rcases (h.upToDate n i hi).deepest with ⟨hnil, -, heq⟩ | ⟨c, hc, -, heq⟩
  · rw [heq]
    exact .stop ((childrenOf_of_info hi).trans hnil)
  · rw [heq]
    exact .descend (childrenOf_of_info hi ▸ hc) (ih c hc.1)

/-- Candidates only have candidate parents, so the descent never needs the stale best slot of
another node. -/
lemma Sound.bestFrom : ∀ n i, fc.info n = some i → candidate fc n = true →
    BestFrom fc n (bestOf fc n) := by
  refine h.wf.child_induction ?_
  intro n i hi ih hcand
  rw [candidate_of_info hi] at hcand
  rw [bestOf_of_info hi]
  have hfilter : (childrenOf fc n).filter (candidate fc) = i.children.filter (candidate fc) := by
    rw [childrenOf_of_info hi]
  rcases (h.upToDate n i hi).best hcand with ⟨hnil, heq⟩ | ⟨c, hc, heq⟩
  · rw [heq]
    exact .stop (hfilter.trans hnil)
  · obtain ⟨hmem, hcandidate⟩ := List.mem_filter.1 hc.1
    rw [heq]
    exact .descend (hfilter ▸ hc) (ih c hmem hcandidate)

end Descent

/-- The two states have the same blocks, latest votes and validity marks. -/
structure SameInputs (fc fc' : HeaviestSubtreeForkChoice) : Prop where
  treeRoot_eq : fc'.treeRoot = fc.treeRoot
  blocks_eq : ∀ n, (fc'.info n).map (fun i => (i.parent, i.latestInvalidAncestor, i.isDuplicateConfirmed)) =
    (fc.info n).map fun i => (i.parent, i.latestInvalidAncestor, i.isDuplicateConfirmed)
  votes_eq : ∀ pubkey : Pubkey, fc'.latestVotes[pubkey]? = fc.latestVotes[pubkey]?

namespace SameInputs

variable (h : SameInputs fc fc')

include h

lemma info_none (hi : fc.info n = none) : fc'.info n = none := by
  have hn := h.blocks_eq n
  rwa [hi, map_none, map_eq_none_iff] at hn

lemma info_some (hi : fc.info n = some i) :
    ∃ i', fc'.info n = some i' ∧ i'.parent = i.parent ∧
      i'.latestInvalidAncestor = i.latestInvalidAncestor := by
  have hn := h.blocks_eq n
  rw [hi, map_some, map_eq_some_iff] at hn
  obtain ⟨i', hi', heq⟩ := hn
  obtain ⟨hparent, hmarks⟩ := Prod.mk.inj heq
  exact ⟨i', hi', hparent, (Prod.mk.inj hmarks).1⟩

lemma parent_eq (n : SlotHashKey) : fc'.parent n = fc.parent n := by
  cases hi : fc.info n with
  | none => simp [parent, hi, h.info_none hi]
  | some i =>
    obtain ⟨i', hi', hparent, -⟩ := h.info_some hi
    simp [parent, hi, hi', hparent]

lemma candidate_eq (n : SlotHashKey) : candidate fc' n = candidate fc n := by
  cases hi : fc.info n with
  | none => simp [candidate, isCandidate, hi, h.info_none hi]
  | some i =>
    obtain ⟨i', hi', -, hmark⟩ := h.info_some hi
    simp [candidate, isCandidate, hi, hi', ForkInfo.isCandidate, hmark]

lemma childrenOf_eq (wf : WellFormed fc) (wf' : WellFormed fc')
    (n : SlotHashKey) : childrenOf fc' n = childrenOf fc n := by
  cases hi : fc.info n with
  | none => simp [childrenOf, children, hi, h.info_none hi]
  | some i =>
    obtain ⟨i', hi', -⟩ := h.info_some hi
    rw [childrenOf_of_info hi, childrenOf_of_info hi']
    have hsorted := wf.children_sorted n i hi
    have hsorted' := wf'.children_sorted n i' hi'
    have hmem : ∀ c, c ∈ i'.children ↔ c ∈ i.children := by
      intro c
      have hparent : fc.parent c = some n ↔ c ∈ i.children := by
        rw [wf.parent_iff, hi]
        simp
      have hparent' : fc'.parent c = some n ↔ c ∈ i'.children := by
        rw [wf'.parent_iff, hi']
        simp
      rw [← hparent', ← hparent, h.parent_eq c]
    exact hsorted'.eq_of_mem_iff hsorted hmem

lemma weight_eq (hs : Sound fc) (hs' : Sound fc')
    (hc : VotesCounted env fc) (hc' : VotesCounted env fc') (n : SlotHashKey) :
    weight fc' n = weight fc n := by
  have hall : ∀ n i, fc.info n = some i → weight fc' n = weight fc n := by
    refine hs.wf.child_induction ?_
    intro n i hi ih
    obtain ⟨i', hi', -⟩ := h.info_some hi
    have hchildren : i'.children = i.children := by
      rw [← childrenOf_of_info hi, ← childrenOf_of_info hi']
      exact h.childrenOf_eq hs.wf hs'.wf n
    have hvoted : votedStake env fc'.latestVotes n = votedStake env fc.latestVotes n :=
      votedStake_congr fun pubkey => by rw [h.votes_eq pubkey]
    rw [weight_of_info hi, weight_of_info hi', (hs.upToDate n i hi).weight_eq,
      (hs'.upToDate n i' hi').weight_eq, hc n i hi, hc' n i' hi', hvoted, hchildren,
      map_weight_congr ih]
  cases hi : fc.info n with
  | none => simp [weight, stakeVotedSubtree, hi, h.info_none hi]
  | some i => exact hall n i hi

lemma bestOf_eq (hs : Sound fc) (hs' : Sound fc')
    (hc : VotesCounted env fc) (hc' : VotesCounted env fc') (hi : fc.info n = some i)
    (hcand : candidate fc n = true) : bestOf fc' n = bestOf fc n := by
  obtain ⟨i', hi', -⟩ := h.info_some hi
  have hbest' := hs'.bestFrom n i' hi' ((h.candidate_eq n).trans hcand)
  have hcandidates : candidate fc' = candidate fc := funext h.candidate_eq
  have hdescends : BestFrom fc n (bestOf fc' n) := by
    refine DescendsTo.congr hbest' ?_ ?_
    · intro m
      rw [hcandidates, h.childrenOf_eq hs.wf hs'.wf m]
    · intro m
      rw [bestScore, bestScore, h.weight_eq hs hs' hc hc' m]
  exact DescendsTo.unique (bestScore_injective fc) hdescends (hs.bestFrom n i hi hcand)

end SameInputs

/-- In every reached state heights, deepest slots and the best slots of candidates are those of a
recomputation. If no leaf was added that a latest vote named already, the best overall slot depends
on blocks, latest votes and marks only. -/
theorem best_and_deepest_recomputed (env : VoteStakes) :
    (∀ guard history fc, ForkRun env guard history fc → ∀ n i, fc.info n = some i →
      i.height = 1 + ((i.children.map (heightOf fc)).max?).getD 0 ∧ DeepestFrom fc n i.deepestSlot ∧
      (i.isCandidate = true → BestFrom fc n i.bestSlot)) ∧
    (∀ history history' fc fc', ForkRun env Unvoted history fc → ForkRun env Unvoted history' fc' →
      SameInputs fc fc' → candidate fc fc.treeRoot = true → fc'.bestOverallSlot = fc.bestOverallSlot) := by
  constructor
  · intro guard history fc hrun n i hi
    have hsound := hrun.sound
    refine ⟨hsound.height_eq hi, ?_, ?_⟩
    · rw [← deepestOf_of_info hi]
      exact hsound.deepestFrom n i hi
    · intro hcand
      rw [← bestOf_of_info hi]
      exact hsound.bestFrom n i hi ((candidate_of_info hi).trans hcand)
  · intro history history' fc fc' hrun hrun' hsame hcand
    obtain ⟨i, hi, -⟩ := hrun.sound.wf.root_mem
    obtain ⟨i', hi', -⟩ := hsame.info_some hi
    have hbest := hsame.bestOf_eq hrun.sound hrun'.sound hrun.votesCounted hrun'.votesCounted hi hcand
    rw [bestOf_of_info hi, bestOf_of_info hi'] at hbest
    simp [bestOverallSlot, bestSlot, hsame.treeRoot_eq, hi, hi', hbest]

structure ForkInputs where
  treeRoot : SlotHashKey
  blocks : List (SlotHashKey × Option SlotHashKey × Option Slot × Bool)
  votes : List (Pubkey × SlotHashKey)
deriving DecidableEq

def inputs (fc : HeaviestSubtreeForkChoice) : ForkInputs where
  treeRoot := fc.treeRoot
  blocks := fc.forkInfos.toList.map (fun entry =>
    (entry.1, entry.2.parent, entry.2.latestInvalidAncestor, entry.2.isDuplicateConfirmed))
  votes := fc.latestVotes.toList

lemma sameInputs_of_inputs_eq (h : inputs fc' = inputs fc) : SameInputs fc fc' := by
  obtain ⟨hroot, hblocks, hvotes⟩ := ForkInputs.mk.inj h
  have hblock : ∀ (fc : HeaviestSubtreeForkChoice) n x, (n, x) ∈ fc.forkInfos.toList.map (fun entry =>
        (entry.1, entry.2.parent, entry.2.latestInvalidAncestor, entry.2.isDuplicateConfirmed)) ↔
      (fc.info n).map (fun i => (i.parent, i.latestInvalidAncestor, i.isDuplicateConfirmed)) = some x := by
    intro fc n x
    rw [List.mem_map, map_eq_some_iff]
    constructor
    · rintro ⟨⟨m, i⟩, hentry, heq⟩
      obtain ⟨rfl, hx⟩ := Prod.mk.inj heq
      exact ⟨i, mem_toList_iff_info.1 hentry, hx⟩
    · rintro ⟨i, hi, rfl⟩
      exact ⟨(n, i), mem_toList_iff_info.2 hi, rfl⟩
  refine ⟨hroot, ?_, ?_⟩
  · intro n
    apply Option.ext
    intro x
    rw [← hblock, ← hblock, hblocks]
  · intro pubkey
    apply Option.ext
    intro n
    rw [← Std.TreeMap.mem_toList_iff_getElem?_eq_some, ← Std.TreeMap.mem_toList_iff_getElem?_eq_some,
      hvotes]

/-- Leaves and votes in two orders. -/
def firstOrder : List ForkOperation :=
  [.addNewLeafSlot ⟨1, 5⟩ ⟨0, 0⟩, .addNewLeafSlot ⟨2, 6⟩ ⟨0, 0⟩, .addVotes [(7, ⟨1, 5⟩), (9, ⟨2, 6⟩)]]

def secondOrder : List ForkOperation :=
  [.addNewLeafSlot ⟨2, 6⟩ ⟨0, 0⟩, .addVotes [(9, ⟨2, 6⟩)], .addNewLeafSlot ⟨1, 5⟩ ⟨0, 0⟩,
    .addVotes [(7, ⟨1, 5⟩)]]

theorem orders_agree : ∃ fc fc', replay exampleStakes Unvoted ⟨0, 0⟩ firstOrder = some fc ∧
    replay exampleStakes Unvoted ⟨0, 0⟩ secondOrder = some fc' ∧ fc.bestOverallSlot = some ⟨2, 6⟩ ∧
      fc'.bestOverallSlot = fc.bestOverallSlot ∧
      ∀ i, fc.info ⟨0, 0⟩ = some i → DeepestFrom fc ⟨0, 0⟩ i.deepestSlot := by
  have hruns : ∃ fc ∈ replay exampleStakes Unvoted ⟨0, 0⟩ firstOrder,
      ∃ fc' ∈ replay exampleStakes Unvoted ⟨0, 0⟩ secondOrder,
        inputs fc' = inputs fc ∧ candidate fc fc.treeRoot = true ∧
          fc.bestOverallSlot = some ⟨2, 6⟩ := by decide
  obtain ⟨fc, hfc, fc', hfc', hinputs, hcand, hbest⟩ := hruns
  have hrun := forkRun_of_replay hfc
  refine ⟨fc, fc', hfc, hfc', hbest, ?_, ?_⟩
  · exact (best_and_deepest_recomputed exampleStakes).2 _ _ fc fc' hrun (forkRun_of_replay hfc')
      (sameInputs_of_inputs_eq hinputs) hcand
  · intro i hi
    exact ((best_and_deepest_recomputed exampleStakes).1 _ _ fc hrun ⟨0, 0⟩ i hi).2.1

/-- Two forks below a root that was marked invalid, in either order. -/
def invalidRootRun (first second : SlotHashKey) : List ForkOperation :=
  [.addNewLeafSlot ⟨1, 5⟩ ⟨0, 0⟩, .markForkInvalidCandidate ⟨1, 5⟩, .setTreeRoot ⟨1, 5⟩,
    .addNewLeafSlot first ⟨1, 5⟩, .addNewLeafSlot second ⟨1, 5⟩]

/-- The best slot of an invalid root depends on the order of the leaves. -/
theorem invalidRootRun_order_matters : ∃ history history' fc fc',
    ForkRun exampleStakes (fun _ _ => True) history fc ∧
      ForkRun exampleStakes (fun _ _ => True) history' fc' ∧ SameInputs fc fc' ∧
      fc'.bestOverallSlot ≠ fc.bestOverallSlot := by
  have hruns : ∃ fc ∈ replay exampleStakes (fun _ _ => True) ⟨0, 0⟩ (invalidRootRun ⟨2, 6⟩ ⟨3, 7⟩),
      ∃ fc' ∈ replay exampleStakes (fun _ _ => True) ⟨0, 0⟩ (invalidRootRun ⟨3, 7⟩ ⟨2, 6⟩),
        inputs fc' = inputs fc ∧ fc'.bestOverallSlot ≠ fc.bestOverallSlot := by decide
  obtain ⟨fc, hfc, fc', hfc', hinputs, hbest⟩ := hruns
  exact ⟨_, _, fc, fc', forkRun_of_replay hfc, forkRun_of_replay hfc', sameInputs_of_inputs_eq hinputs,
    hbest⟩

end Nuah.Proofs
