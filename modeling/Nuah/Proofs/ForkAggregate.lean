import Nuah.Lib.Champion
import Nuah.Proofs.ForkTree

/-!
# What aggregation computes

`aggregate_slot` adds up the weights of the children and picks the best and the deepest one.
The same equations, read as an invariant, say when a node is up to date with its children.
-/

namespace Nuah.Proofs
open HeaviestSubtreeForkChoice Champion List

variable {a : Aggregate} {key c : SlotHashKey} {ic : ForkInfo} {done : List SlotHashKey}
  {fc : HeaviestSubtreeForkChoice} {i : ForkInfo}

section Accessors
variable (fc : HeaviestSubtreeForkChoice) (n : SlotHashKey)

def weight : Nat := (fc.stakeVotedSubtree n).getD 0

def heightOf : Nat := (fc.height n).getD 0

def candidate : Bool := (fc.isCandidate n).getD false

def confirmed : Bool := (fc.isDuplicateConfirmed n).getD false

def bestOf : SlotHashKey := (fc.bestSlot n).getD n

def deepestOf : SlotHashKey := ((fc.info n).map ForkInfo.deepestSlot).getD n

def bestScore : Nat ×ₗ SlotHashKeyᵒᵈ := toLex (weight fc n, OrderDual.toDual n)

def depthScore : Nat ×ₗ (Nat ×ₗ SlotHashKeyᵒᵈ) := toLex (heightOf fc n, bestScore fc n)

end Accessors

lemma bestScore_injective (fc : HeaviestSubtreeForkChoice) : Function.Injective (bestScore fc) := by
  intro a b h
  simpa [bestScore] using congrArg (fun x => (ofLex x).2) h

lemma bestScore_lt {a b : SlotHashKey} :
    bestScore fc a < bestScore fc b ↔
      weight fc a < weight fc b ∨ (weight fc b = weight fc a ∧ b < a) := by
  simp [bestScore, Prod.Lex.toLex_lt_toLex, eq_comm]

lemma depthScore_lt {a b : SlotHashKey} :
    depthScore fc a < depthScore fc b ↔
      heightOf fc a < heightOf fc b ∨ (heightOf fc b = heightOf fc a ∧ weight fc a < weight fc b) ∨
        (heightOf fc b = heightOf fc a ∧ weight fc b = weight fc a ∧ b < a) := by
  rw [depthScore, depthScore, Prod.Lex.toLex_lt_toLex, bestScore_lt, and_or_left,
    eq_comm (a := heightOf fc a)]

section OfInfo
variable {fc : HeaviestSubtreeForkChoice} {n : SlotHashKey} {i : ForkInfo} (h : fc.info n = some i)
include h

lemma weight_of_info : weight fc n = i.stakeVotedSubtree := by simp [weight, stakeVotedSubtree, h]

lemma heightOf_of_info : heightOf fc n = i.height := by
  simp [heightOf, HeaviestSubtreeForkChoice.height, h]

lemma candidate_of_info : candidate fc n = i.isCandidate := by simp [candidate, isCandidate, h]

lemma confirmed_of_info : confirmed fc n = i.isDuplicateConfirmed := by
  simp [confirmed, isDuplicateConfirmed, h]

lemma bestOf_of_info : bestOf fc n = i.bestSlot := by simp [bestOf, bestSlot, h]

lemma deepestOf_of_info : deepestOf fc n = i.deepestSlot := by simp [deepestOf, h]

end OfInfo

/-- The best slot is found by descending into the heaviest candidate child. -/
def BestUpToDate (fc : HeaviestSubtreeForkChoice) (n : SlotHashKey) (children : List SlotHashKey)
    (best : SlotHashKey) : Prop :=
  (children.filter (candidate fc) = [] ∧ best = n) ∨
    ∃ c, IsChampion (bestScore fc) (children.filter (candidate fc)) c ∧ best = bestOf fc c

/-- The deepest slot and the height are found by descending into the deepest child. -/
def DeepestUpToDate (fc : HeaviestSubtreeForkChoice) (n : SlotHashKey) (children : List SlotHashKey)
    (height : Nat) (deepest : SlotHashKey) : Prop :=
  (children = [] ∧ height = 1 ∧ deepest = n) ∨
    ∃ c, IsChampion (depthScore fc) children c ∧ height = heightOf fc c + 1 ∧ deepest = deepestOf fc c

/-- The locals of `aggregate_slot` after some of the children. -/
structure Tallied (fc : HeaviestSubtreeForkChoice) (key : SlotHashKey) (i : ForkInfo)
    (done : List SlotHashKey) (a : Aggregate) : Prop where
  weight_eq : a.stakeVotedSubtree = i.stakeVotedAt + (done.map (weight fc)).sum
  confirmed_eq : a.isDuplicateConfirmed = done.any (confirmed fc)
  best : (done.filter (candidate fc) = [] ∧ a.bestChildSlotKey = key ∧ a.bestSlotHashKey = key) ∨
    ∃ c, IsChampion (bestScore fc) (done.filter (candidate fc)) c ∧ a.bestChildSlotKey = c ∧ c ≠ key ∧
      a.bestChildStakeVotedSubtree = weight fc c ∧ a.bestSlotHashKey = bestOf fc c
  deepest : (done = [] ∧ a.deepestChildSlotKey = key ∧ a.deepestChildHeight = 0 ∧
      a.deepestSlotHashKey = key) ∨
    ∃ c, IsChampion (depthScore fc) done c ∧ a.deepestChildSlotKey = c ∧ c ≠ key ∧
      a.deepestChildHeight = heightOf fc c ∧ a.deepestChildStakeVotedSubtree = weight fc c ∧
      a.deepestSlotHashKey = deepestOf fc c

lemma tallied_start (fc : HeaviestSubtreeForkChoice) (key : SlotHashKey) (i : ForkInfo) :
    Tallied fc key i [] (.start key i) :=
  ⟨by simp [Aggregate.start], by simp [Aggregate.start], .inl ⟨rfl, rfl, rfl⟩, .inl ⟨rfl, rfl, rfl, rfl⟩⟩

lemma pickBest_frame (key : SlotHashKey) (a : Aggregate) (childKey : SlotHashKey) (child : ForkInfo) :
    (a.pickBest key childKey child).stakeVotedSubtree = a.stakeVotedSubtree ∧
      (a.pickBest key childKey child).isDuplicateConfirmed = a.isDuplicateConfirmed ∧
      (a.pickBest key childKey child).deepestChildSlotKey = a.deepestChildSlotKey ∧
      (a.pickBest key childKey child).deepestChildHeight = a.deepestChildHeight ∧
      (a.pickBest key childKey child).deepestChildStakeVotedSubtree =
        a.deepestChildStakeVotedSubtree ∧
      (a.pickBest key childKey child).deepestSlotHashKey = a.deepestSlotHashKey := by
  unfold Aggregate.pickBest
  split <;> simp

lemma pickDeepest_frame (key : SlotHashKey) (a : Aggregate) (childKey : SlotHashKey)
    (child : ForkInfo) :
    (a.pickDeepest key childKey child).stakeVotedSubtree = a.stakeVotedSubtree ∧
      (a.pickDeepest key childKey child).isDuplicateConfirmed = a.isDuplicateConfirmed ∧
      (a.pickDeepest key childKey child).bestChildSlotKey = a.bestChildSlotKey ∧
      (a.pickDeepest key childKey child).bestChildStakeVotedSubtree = a.bestChildStakeVotedSubtree ∧
      (a.pickDeepest key childKey child).bestSlotHashKey = a.bestSlotHashKey := by
  unfold Aggregate.pickDeepest
  split <;> simp

section

variable (hc : fc.info c = some ic)

include hc

lemma pickBest_tallied (hne : c ≠ key)
    (h : (done.filter (candidate fc) = [] ∧ a.bestChildSlotKey = key ∧ a.bestSlotHashKey = key) ∨ ∃ x, IsChampion (bestScore fc) (done.filter (candidate fc)) x ∧ a.bestChildSlotKey = x ∧ x ≠ key ∧ a.bestChildStakeVotedSubtree = weight fc x ∧ a.bestSlotHashKey = bestOf fc x) :
    let a' := a.pickBest key c ic
    ((done ++ [c]).filter (candidate fc) = [] ∧ a'.bestChildSlotKey = key ∧ a'.bestSlotHashKey = key) ∨
      ∃ x, IsChampion (bestScore fc) ((done ++ [c]).filter (candidate fc)) x ∧
        a'.bestChildSlotKey = x ∧ x ≠ key ∧ a'.bestChildStakeVotedSubtree = weight fc x ∧
        a'.bestSlotHashKey = bestOf fc x := by
  have hcand := candidate_of_info hc
  have hweight := weight_of_info hc
  have hbest := bestOf_of_info hc
  dsimp only
  rw [filter_append]
  by_cases hcandidate : ic.isCandidate
  · have hfilter : [c].filter (candidate fc) = [c] := by simp [hcand, hcandidate]
    rw [hfilter]
    refine .inr ?_
    rcases h with ⟨hnil, hkey, -⟩ | ⟨x, hx, hkey, hxkey, hstake, hslot⟩
    · refine ⟨c, by simpa [hnil] using IsChampion.singleton (bestScore fc) c, ?_⟩
      simp [Aggregate.pickBest, hcandidate, hkey, hne, hweight, hbest]
    · by_cases hlt : bestScore fc x < bestScore fc c
      · refine ⟨c, hx.snoc_of_le hlt.le, ?_⟩
        rw [bestScore_lt, hweight, ← hstake, ← hkey] at hlt
        rw [Aggregate.pickBest, if_pos (by simp [hcandidate]; tauto)]
        exact ⟨rfl, hne, hweight.symm, hbest.symm⟩
      · refine ⟨x, hx.snoc_of_ge (le_of_not_gt hlt), ?_⟩
        rw [bestScore_lt, hweight, ← hstake, ← hkey] at hlt
        rw [Aggregate.pickBest, if_neg (by simp [hkey, hxkey] at hlt ⊢; tauto)]
        exact ⟨hkey, hxkey, hstake, hslot⟩
  · have hfilter : [c].filter (candidate fc) = [] := by simp [hcand, hcandidate]
    rw [hfilter, append_nil, Aggregate.pickBest, if_neg (by simp [hcandidate])]
    exact h

lemma pickDeepest_tallied (hne : c ≠ key)
    (h : (done = [] ∧ a.deepestChildSlotKey = key ∧ a.deepestChildHeight = 0 ∧ a.deepestSlotHashKey = key) ∨ ∃ x, IsChampion (depthScore fc) done x ∧ a.deepestChildSlotKey = x ∧ x ≠ key ∧ a.deepestChildHeight = heightOf fc x ∧ a.deepestChildStakeVotedSubtree = weight fc x ∧ a.deepestSlotHashKey = deepestOf fc x) :
    let a' := a.pickDeepest key c ic
    ∃ x, IsChampion (depthScore fc) (done ++ [c]) x ∧ a'.deepestChildSlotKey = x ∧ x ≠ key ∧
      a'.deepestChildHeight = heightOf fc x ∧ a'.deepestChildStakeVotedSubtree = weight fc x ∧
      a'.deepestSlotHashKey = deepestOf fc x := by
  have hheight := heightOf_of_info hc
  have hweight := weight_of_info hc
  have hdeepest := deepestOf_of_info hc
  dsimp only
  rcases h with ⟨rfl, hkey, -⟩ | ⟨x, hx, hkey, hxkey, hxheight, hstake, hslot⟩
  · refine ⟨c, IsChampion.singleton (depthScore fc) c, ?_⟩
    simp [Aggregate.pickDeepest, hkey, hne, hheight, hweight, hdeepest]
  · by_cases hlt : depthScore fc x < depthScore fc c
    · refine ⟨c, hx.snoc_of_le hlt.le, ?_⟩
      rw [depthScore_lt, hheight, hweight, ← hxheight, ← hstake, ← hkey] at hlt
      rw [Aggregate.pickDeepest, if_pos (by simp; tauto)]
      exact ⟨rfl, hne, hheight.symm, hweight.symm, hdeepest.symm⟩
    · refine ⟨x, hx.snoc_of_ge (le_of_not_gt hlt), ?_⟩
      rw [depthScore_lt, hheight, hweight, ← hxheight, ← hstake, ← hkey] at hlt
      rw [Aggregate.pickDeepest, if_neg (by simp [hkey, hxkey] at hlt ⊢; tauto)]
      exact ⟨hkey, hxkey, hxheight, hstake, hslot⟩

lemma addChild_tallied (hne : c ≠ key) (h : Tallied fc key i done a) :
    Tallied fc key i (done ++ [c]) (a.addChild key (c, ic)) := by
  obtain ⟨hweight, hconfirmed, hbest, hdeepest⟩ := h
  unfold Aggregate.addChild
  dsimp only
  generalize hcounted : ({ a with
    isDuplicateConfirmed := a.isDuplicateConfirmed || ic.isDuplicateConfirmed
    stakeVotedSubtree := a.stakeVotedSubtree + ic.stakeVotedSubtree } : Aggregate) = counted
  have hbestFrame := pickBest_frame key counted c ic
  have hdeepFrame := pickDeepest_frame key (counted.pickBest key c ic) c ic
  refine ⟨?_, ?_, ?_, ?_⟩
  · rw [hdeepFrame.1, hbestFrame.1, ← hcounted]
    simp only [hweight, map_append, map_cons, map_nil, sum_append, sum_cons,
      sum_nil, weight_of_info hc]
    omega
  · rw [hdeepFrame.2.1, hbestFrame.2.1, ← hcounted]
    simp [hconfirmed, confirmed_of_info hc]
  · rw [hdeepFrame.2.2.1, hdeepFrame.2.2.2.1, hdeepFrame.2.2.2.2]
    exact pickBest_tallied hc hne (by rw [← hcounted]; exact hbest)
  · refine .inr (pickDeepest_tallied hc hne ?_)
    obtain ⟨-, -, hkey, hheight, hstake, hslot⟩ := hbestFrame
    rw [hkey, hheight, hstake, hslot, ← hcounted]
    exact hdeepest

end

lemma foldl_tallied (entries : List (SlotHashKey × ForkInfo))
    (h : ∀ e ∈ entries, fc.info e.1 = some e.2 ∧ e.1 ≠ key) :
    Tallied fc key i (entries.map Prod.fst) (entries.foldl (Aggregate.addChild key) (.start key i)) := by
  induction entries using List.reverseRecOn with
  | nil => exact tallied_start fc key i
  | append_singleton entries e ih =>
    rw [foldl_append, map_append]
    obtain ⟨hinfo, hne⟩ := h e (by simp)
    exact addChild_tallied hinfo hne (ih (fun e' he' => h e' (by simp [he'])))

/-- The node that `aggregate_slot` leaves, computed from its children in `fc`. -/
structure Aggregated (fc : HeaviestSubtreeForkChoice) (key : SlotHashKey) (i i' : ForkInfo) : Prop where
  frame : i'.stakeVotedAt = i.stakeVotedAt ∧ i'.parent = i.parent ∧ i'.children = i.children
  weight_eq : i'.stakeVotedSubtree = i.stakeVotedAt + (i.children.map (weight fc)).sum
  deepest : DeepestUpToDate fc key i.children i'.height i'.deepestSlot
  best : BestUpToDate fc key i.children i'.bestSlot
  marks : if i.children.any (confirmed fc) then
      i'.isDuplicateConfirmed = true ∧ i'.latestInvalidAncestor = none
    else i'.isDuplicateConfirmed = i.isDuplicateConfirmed ∧
      i'.latestInvalidAncestor = i.latestInvalidAncestor

lemma Tallied.result (h : Tallied fc key i i.children a) : Aggregated fc key i (a.result i) := by
  refine ⟨?_, h.weight_eq, ?_, ?_, ?_⟩
  · unfold Aggregate.result ForkInfo.setDuplicateConfirmed
    split <;> simp
  · rcases h.deepest with ⟨hnil, -, hheight, hslot⟩ | ⟨c, hc, -, -, hheight, -, hslot⟩
    · exact .inl ⟨hnil, by simp [Aggregate.result, hheight], hslot⟩
    · exact .inr ⟨c, hc, by simp [Aggregate.result, hheight], hslot⟩
  · rcases h.best with ⟨hnil, -, hslot⟩ | ⟨c, hc, -, -, -, hslot⟩
    · exact .inl ⟨hnil, hslot⟩
    · exact .inr ⟨c, hc, hslot⟩
  · rw [← h.confirmed_eq]
    unfold Aggregate.result ForkInfo.setDuplicateConfirmed
    split <;> simp

lemma mapM_childInfo {l : List SlotHashKey} (hmem : ∀ n ∈ l, fc.info n ≠ none) :
    ∃ nodes, l.mapM fc.childInfo = some nodes ∧ nodes.map Prod.fst = l ∧
      ∀ node ∈ nodes, fc.info node.1 = some node.2 := by
  induction l with
  | nil => exact ⟨[], rfl, rfl, by simp⟩
  | cons n l ih =>
    obtain ⟨hn, hl⟩ := forall_mem_cons.1 hmem
    obtain ⟨i, hi⟩ := Option.ne_none_iff_exists'.1 hn
    obtain ⟨nodes, hnodes, hkeys, hvalues⟩ := ih hl
    refine ⟨(n, i) :: nodes, ?_, ?_, ?_⟩
    · simp [mapM_cons, childInfo, hi, hnodes]
    · rw [map_cons, hkeys]
    · exact forall_mem_cons.2 ⟨hi, hvalues⟩

lemma aggregateSlot_eq
    (hkey : fc.info key = some i) (hchildren : ∀ c ∈ i.children, fc.info c ≠ none ∧ c ≠ key) :
    ∃ i', fc.aggregateSlot key = some (fc.setInfo key i') ∧ Aggregated fc key i i' := by
  obtain ⟨entries, hmap, hfst, hvalues⟩ := mapM_childInfo fun c hc => (hchildren c hc).1
  have hinfo : ∀ e ∈ entries, fc.info e.1 = some e.2 ∧ e.1 ≠ key := fun e he =>
    ⟨hvalues e he, (hchildren e.1 (hfst ▸ mem_map_of_mem he)).2⟩
  have htallied := foldl_tallied (i := i) entries hinfo
  rw [hfst] at htallied
  exact ⟨_, by simp [aggregateSlot, hkey, hmap], htallied.result⟩

end Nuah.Proofs
