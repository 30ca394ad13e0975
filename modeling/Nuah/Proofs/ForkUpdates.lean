import Nuah.Proofs.ForkAggregate

/-!
# Processing a batch of update operations

Keys are processed from the greatest to the smallest, so a node is aggregated after all its
children reached their final state. The result is described node by node.
-/

namespace Nuah.Proofs
open HeaviestSubtreeForkChoice UpdateOperations List

variable {i i' : ForkInfo} {n c : SlotHashKey}

variable {fc fc' fc₁ : HeaviestSubtreeForkChoice} {key k : SlotHashKey} {o : KeyOperations}
  {ops : SlotHashKey → KeyOperations} {rest : List (SlotHashKey × KeyOperations)}

/-- Only the node at `key` differs. -/
structure Changed (fc : HeaviestSubtreeForkChoice) (key : SlotHashKey) (i : ForkInfo)
    (fc' : HeaviestSubtreeForkChoice) : Prop where
  treeRoot_eq : fc'.treeRoot = fc.treeRoot
  latestVotes_eq : fc'.latestVotes = fc.latestVotes
  info_eq : ∀ n, fc'.info n = if key = n then some i else fc.info n

lemma changed_setInfo (fc : HeaviestSubtreeForkChoice) (key : SlotHashKey) (i : ForkInfo) :
    Changed fc key i (fc.setInfo key i) :=
  ⟨rfl, rfl, fun n => info_setInfo fc key n i⟩

lemma changed_self (h : fc.info key = some i) : Changed fc key i fc := by
  refine ⟨rfl, rfl, ?_⟩
  intro n
  by_cases hn : key = n
  · rw [if_pos hn, ← hn, h]
  · rw [if_neg hn]

lemma Changed.info_self (h : Changed fc key i fc') : fc'.info key = some i := by
  rw [h.info_eq, if_pos rfl]

lemma Changed.info_of_ne (h : Changed fc key i fc') (hne : key ≠ n) : fc'.info n = fc.info n := by
  rw [h.info_eq, if_neg hne]

lemma Changed.trans {fc₂ : HeaviestSubtreeForkChoice} {i₁ i₂ : ForkInfo}
    (h₁ : Changed fc key i₁ fc₁) (h₂ : Changed fc₁ key i₂ fc₂) : Changed fc key i₂ fc₂ := by
  refine ⟨h₂.treeRoot_eq.trans h₁.treeRoot_eq, h₂.latestVotes_eq.trans h₁.latestVotes_eq, ?_⟩
  intro n
  rw [h₂.info_eq]
  by_cases hn : key = n
  · simp [hn]
  · rw [if_neg hn, if_neg hn, h₁.info_of_ne hn]

/-- The mark after `MarkInvalid`. -/
def raiseMark (invalidSlot : Option Slot) (mark : Option Slot) : Option Slot :=
  match invalidSlot with
  | none => mark
  | some slot => if mark.all (fun latest => decide (latest < slot)) then some slot else mark

/-- The mark after `MarkValid`. -/
def clearMark (validSlot : Option Slot) (mark : Option Slot) : Option Slot :=
  match validSlot with
  | none => mark
  | some slot => mark.filter fun latest => decide (slot < latest)

def localUpdate (key : SlotHashKey) (o : KeyOperations) (i : ForkInfo) : ForkInfo :=
  { i with
    stakeVotedAt := i.stakeVotedAt - o.subtract.getD 0 + o.add.getD 0
    stakeVotedSubtree := i.stakeVotedSubtree - o.subtract.getD 0 + o.add.getD 0
    latestInvalidAncestor := clearMark o.markValid (raiseMark o.markInvalid i.latestInvalidAncestor)
    isDuplicateConfirmed := i.isDuplicateConfirmed || decide (o.markValid = some key.slot) }

/-- The operations do not underflow and do not invalidate a duplicate confirmed node. -/
structure SafeOperations (o : KeyOperations) (i : ForkInfo) : Prop where
  subtract_le : ∀ stake, o.subtract = some stake →
    stake ≤ i.stakeVotedAt ∧ stake ≤ i.stakeVotedSubtree
  not_confirmed : o.markInvalid ≠ none → i.isDuplicateConfirmed = false

/-- A node after its operations, with its children as in `fc`. -/
def KeyProcessed (fc : HeaviestSubtreeForkChoice) (key : SlotHashKey) (o : KeyOperations)
    (i i' : ForkInfo) : Prop :=
  if o.aggregate then Aggregated fc key (localUpdate key o i) i' else i' = localUpdate key o i

section

variable (hi : fc.info key = some i)

include hi

lemma subtract_changed (o : Option Nat)
    (hle : ∀ stake, o = some stake → stake ≤ i.stakeVotedAt ∧ stake ≤ i.stakeVotedSubtree) :
    ∃ fc', o.elim (some fc) (fc.subtractSlotStake key) = some fc' ∧
      Changed fc key { i with
        stakeVotedAt := i.stakeVotedAt - o.getD 0
        stakeVotedSubtree := i.stakeVotedSubtree - o.getD 0 } fc' := by
  cases o with
  | none => exact ⟨fc, rfl, changed_self hi⟩
  | some stake =>
    obtain ⟨hat, hsub⟩ := hle stake rfl
    refine ⟨_, ?_, changed_setInfo fc key _⟩
    simp [subtractSlotStake, hi, checkedSub, hat, hsub]

lemma markInvalid_changed (o : Option Slot) (hconf : o ≠ none → i.isDuplicateConfirmed = false) :
    ∃ fc', o.elim (some fc) (fc.markForkInvalid key) = some fc' ∧
      Changed fc key { i with latestInvalidAncestor := raiseMark o i.latestInvalidAncestor } fc' := by
  cases o with
  | none => exact ⟨fc, rfl, changed_self hi⟩
  | some slot =>
    refine ⟨_, ?_, changed_setInfo fc key _⟩
    have hnot : ¬ i.isDuplicateConfirmed = true := by simp [hconf]
    have hupdated : i.updateWithNewlyInvalidAncestor slot =
        some { i with latestInvalidAncestor := raiseMark (some slot) i.latestInvalidAncestor } := by
      rw [ForkInfo.updateWithNewlyInvalidAncestor, if_neg hnot, raiseMark]
      split <;> rfl
    simp [markForkInvalid, hi, hupdated]

lemma markValid_changed (o : Option Slot) :
    Changed fc key { i with
        latestInvalidAncestor := clearMark o i.latestInvalidAncestor
        isDuplicateConfirmed := i.isDuplicateConfirmed || decide (o = some key.slot) }
      (o.elim fc (fc.markForkValid key)) := by
  cases o with
  | none =>
    refine changed_self ?_
    simpa [clearMark] using hi
  | some slot =>
    have hinfo : (if key.slot = slot then
          { i.updateWithNewlyValidAncestor slot with isDuplicateConfirmed := true }
        else i.updateWithNewlyValidAncestor slot) = { i with
          latestInvalidAncestor := clearMark (some slot) i.latestInvalidAncestor
          isDuplicateConfirmed := i.isDuplicateConfirmed || decide (some slot = some key.slot) } := by
      obtain ⟨_, _, _, _, _, _, _, lia, conf⟩ := i
      cases lia with
      | none =>
        by_cases hslot : key.slot = slot
        · simp [hslot, ForkInfo.updateWithNewlyValidAncestor, clearMark]
        · simp [hslot, Ne.symm hslot, ForkInfo.updateWithNewlyValidAncestor, clearMark]
      | some latest =>
        by_cases hslot : key.slot = slot
        · by_cases hle : latest ≤ slot
          · simp [hslot, hle, ForkInfo.updateWithNewlyValidAncestor, clearMark, Option.filter]
          · simp [hslot, hle, ForkInfo.updateWithNewlyValidAncestor, clearMark, Option.filter,
              Nat.lt_of_not_le hle]
        · by_cases hle : latest ≤ slot
          · simp [hslot, Ne.symm hslot, hle, ForkInfo.updateWithNewlyValidAncestor, clearMark,
              Option.filter]
          · simp [hslot, Ne.symm hslot, hle, ForkInfo.updateWithNewlyValidAncestor, clearMark,
              Option.filter, Nat.lt_of_not_le hle]
    simp only [Option.elim, markForkValid, hi, hinfo]
    exact changed_setInfo fc key _

lemma add_changed (o : Option Nat) :
    Changed fc key { i with
        stakeVotedAt := i.stakeVotedAt + o.getD 0
        stakeVotedSubtree := i.stakeVotedSubtree + o.getD 0 } (o.elim fc (fc.addSlotStake key)) := by
  cases o with
  | none => exact changed_self hi
  | some stake =>
    simp only [Option.elim, addSlotStake, hi]
    exact changed_setInfo fc key _

end

/-- `c` looks the same in both states to the choice of the best child. -/
structure SameBest (fc fc' : HeaviestSubtreeForkChoice) (c : SlotHashKey) : Prop where
  weight_eq : weight fc c = weight fc' c
  candidate_eq : candidate fc c = candidate fc' c
  bestOf_eq : bestOf fc c = bestOf fc' c

/-- `c` looks the same in both states to the choice of the deepest child. -/
structure SameDeepest (fc fc' : HeaviestSubtreeForkChoice) (c : SlotHashKey) : Prop where
  weight_eq : weight fc c = weight fc' c
  heightOf_eq : heightOf fc c = heightOf fc' c
  deepestOf_eq : deepestOf fc c = deepestOf fc' c

section Congr
variable {l : List SlotHashKey}

lemma sameBest_of_info (h : fc.info c = fc'.info c) : SameBest fc fc' c :=
  ⟨by simp [weight, stakeVotedSubtree, h], by simp [candidate, isCandidate, h],
    by simp [bestOf, bestSlot, h]⟩

lemma sameDeepest_of_info (h : fc.info c = fc'.info c) : SameDeepest fc fc' c :=
  ⟨by simp [weight, stakeVotedSubtree, h], by simp [heightOf, HeaviestSubtreeForkChoice.height, h],
    by simp [deepestOf, h]⟩

lemma SameDeepest.depthScore_eq (h : SameDeepest fc fc' c) :
    depthScore fc c = depthScore fc' c := by
  simp [depthScore, bestScore, h.weight_eq, h.heightOf_eq]

lemma map_weight_congr (h : ∀ c ∈ l, weight fc c = weight fc' c) :
    l.map (weight fc) = l.map (weight fc') :=
  map_congr_left h

lemma any_confirmed_congr (h : ∀ c ∈ l, fc.info c = fc'.info c) :
    l.any (confirmed fc) = l.any (confirmed fc') := by
  rw [Bool.eq_iff_iff, any_eq_true, any_eq_true]
  refine exists_congr fun c => and_congr_right fun hc => ?_
  simp [confirmed, isDuplicateConfirmed, h c hc]

lemma BestUpToDate.congr {best : SlotHashKey} (hbest : BestUpToDate fc n l best)
    (h : ∀ c ∈ l, SameBest fc fc' c) : BestUpToDate fc' n l best := by
  have hfilter : l.filter (candidate fc') = l.filter (candidate fc) :=
    filter_congr fun c hc => (h c hc).candidate_eq.symm
  rw [BestUpToDate, hfilter]
  rcases hbest with hnone | ⟨c, hc, heq⟩
  · exact .inl hnone
  · refine .inr ⟨c, hc.congr ?_, heq.trans (h c (mem_of_mem_filter hc.1)).bestOf_eq⟩
    intro c' hc'
    simp [bestScore, (h c' (mem_of_mem_filter hc')).weight_eq]

lemma DeepestUpToDate.congr {deepest : SlotHashKey} {height : Nat}
    (hdeepest : DeepestUpToDate fc n l height deepest) (h : ∀ c ∈ l, SameDeepest fc fc' c) :
    DeepestUpToDate fc' n l height deepest := by
  rcases hdeepest with hnone | ⟨c, hc, hheight, heq⟩
  · exact .inl hnone
  · exact .inr ⟨c, hc.congr (fun c' hc' => (h c' hc').depthScore_eq),
      by rw [hheight, (h c hc.1).heightOf_eq], heq.trans (h c hc.1).deepestOf_eq⟩

end Congr

lemma Aggregated.congr (hagg : Aggregated fc key i i')
    (h : ∀ c ∈ i.children, fc.info c = fc'.info c) :
    Aggregated fc' key i i' := by
  refine ⟨hagg.frame, ?_, hagg.deepest.congr (fun c hc => sameDeepest_of_info (h c hc)),
    hagg.best.congr (fun c hc => sameBest_of_info (h c hc)), ?_⟩
  · rw [hagg.weight_eq, map_weight_congr (fun c hc => (sameBest_of_info (h c hc)).weight_eq)]
  · rw [← any_confirmed_congr h]
    exact hagg.marks

lemma processKeyOperations_spec (hi : fc.info key = some i) (hsafe : SafeOperations o i)
    (hchildren : ∀ c ∈ i.children, fc.info c ≠ none ∧ c ≠ key) :
    ∃ fc' i', fc.processKeyOperations key o = some fc' ∧ Changed fc key i' fc' ∧
      KeyProcessed fc key o i i' := by
  obtain ⟨fc₁, heq₁, h₁⟩ := subtract_changed hi o.subtract hsafe.subtract_le
  obtain ⟨fc₂, heq₂, h₂⟩ := markInvalid_changed h₁.info_self o.markInvalid hsafe.not_confirmed
  have h₃ := markValid_changed h₂.info_self o.markValid
  set fc₃ := o.markValid.elim fc₂ (fc₂.markForkValid key) with hfc₃
  have h₄ := add_changed h₃.info_self o.add
  set fc₄ := o.add.elim fc₃ (fc₃.addSlotStake key) with hfc₄
  have hlocal := ((h₁.trans h₂).trans h₃).trans h₄
  have hdef : fc.processKeyOperations key o =
      if o.aggregate then fc₄.aggregateSlot key else some fc₄ := by
    simp [processKeyOperations, heq₁, heq₂, hfc₃, hfc₄]
  rw [hdef]
  change Changed fc key (localUpdate key o i) fc₄ at hlocal
  unfold KeyProcessed
  by_cases hagg : o.aggregate
  · have hframe : ∀ c ∈ i.children, fc₄.info c = fc.info c := fun c hc =>
      hlocal.info_of_ne (hchildren c hc).2.symm
    obtain ⟨i', heq, hresult⟩ := aggregateSlot_eq hlocal.info_self (by
      intro c hc
      rw [hframe c hc]
      exact hchildren c hc)
    rw [if_pos hagg]
    refine ⟨_, i', heq, hlocal.trans (changed_setInfo fc₄ key i'), ?_⟩
    rw [if_pos hagg]
    exact hresult.congr hframe
  · rw [if_neg hagg]
    refine ⟨fc₄, _, rfl, hlocal, ?_⟩
    rw [if_neg hagg]

lemma processKeyOperations_none (o : KeyOperations) (hi : fc.info key = none) :
    fc.processKeyOperations key o = some fc := by
  obtain ⟨sub, inv, val, add, agg⟩ := o
  have hsub : sub.elim (some fc) (fc.subtractSlotStake key) = some fc := by
    cases sub <;> simp [subtractSlotStake, hi]
  have hinv : inv.elim (some fc) (fc.markForkInvalid key) = some fc := by
    cases inv <;> simp [markForkInvalid, hi]
  have hval : val.elim fc (fc.markForkValid key) = fc := by
    cases val <;> simp [markForkValid, hi]
  have hadd : add.elim fc (fc.addSlotStake key) = fc := by
    cases add <;> simp [addSlotStake, hi]
  simp [processKeyOperations, hsub, hinv, hval, hadd, aggregateSlot, hi]

lemma KeyProcessed.frame (h : KeyProcessed fc key o i i') :
    i'.parent = i.parent ∧ i'.children = i.children ∧
      i'.stakeVotedAt = i.stakeVotedAt - o.subtract.getD 0 + o.add.getD 0 := by
  unfold KeyProcessed at h
  split at h
  · exact ⟨h.frame.2.1, h.frame.2.2, h.frame.1⟩
  · subst h
    exact ⟨rfl, rfl, rfl⟩

lemma KeyProcessed.congr (hp : KeyProcessed fc key o i i')
    (h : ∀ c ∈ i.children, fc.info c = fc'.info c) :
    KeyProcessed fc' key o i i' := by
  unfold KeyProcessed at hp ⊢
  split at hp
  · rename_i hagg
    rw [if_pos hagg]
    exact hp.congr h
  · rename_i hagg
    rw [if_neg hagg]
    exact hp

def ChildrenAbove (fc : HeaviestSubtreeForkChoice) : Prop :=
  ∀ n i, fc.info n = some i → ∀ c ∈ i.children, fc.info c ≠ none ∧ n < c

lemma WellFormed.childrenAbove (wf : WellFormed fc) : ChildrenAbove fc := by
  intro n i hi c hc
  obtain ⟨ic, hic, -, hlt⟩ := wf.child_mem n i c hi hc
  exact ⟨by simp [hic], key_lt_of_slot_lt hlt⟩

structure ProcessedBy (fc : HeaviestSubtreeForkChoice) (ops : SlotHashKey → KeyOperations)
    (fc' : HeaviestSubtreeForkChoice) : Prop where
  treeRoot_eq : fc'.treeRoot = fc.treeRoot
  latestVotes_eq : fc'.latestVotes = fc.latestVotes
  info_none : ∀ n, fc.info n = none → fc'.info n = none
  info_some : ∀ n i, fc.info n = some i → ∃ i', fc'.info n = some i' ∧ KeyProcessed fc' n (ops n) i i'

def entryOps (l : List (SlotHashKey × KeyOperations)) (n : SlotHashKey) : KeyOperations :=
  (l.lookup n).getD .none

/-- The state after the operations on one key, which may not be in the tree. -/
structure Stepped (fc : HeaviestSubtreeForkChoice) (key : SlotHashKey) (o : KeyOperations)
    (fc' : HeaviestSubtreeForkChoice) : Prop where
  treeRoot_eq : fc'.treeRoot = fc.treeRoot
  latestVotes_eq : fc'.latestVotes = fc.latestVotes
  info_of_ne : ∀ n, n ≠ key → fc'.info n = fc.info n
  info_none : fc.info key = none → fc'.info key = none
  info_some : ∀ i, fc.info key = some i → ∃ i', fc'.info key = some i' ∧ KeyProcessed fc key o i i'

namespace Stepped
lemma info_none_iff (h : Stepped fc key o fc') (n : SlotHashKey) :
    fc'.info n = none ↔ fc.info n = none := by
  by_cases hn : n = key
  · subst hn
    refine ⟨?_, h.info_none⟩
    intro hnone
    by_contra hcon
    obtain ⟨i, hi⟩ := Option.ne_none_iff_exists'.1 hcon
    obtain ⟨i', hi', -⟩ := h.info_some i hi
    simp [hnone] at hi'
  · rw [h.info_of_ne n hn]

lemma childrenAbove (h : Stepped fc key o fc') (hchildren : ChildrenAbove fc) : ChildrenAbove fc' := by
  intro n i hi c hc
  rw [ne_eq, h.info_none_iff c]
  by_cases hn : n = key
  · subst hn
    obtain ⟨i₀, hi₀⟩ := Option.ne_none_iff_exists'.1 (mt (h.info_none_iff n).2 (by simp [hi]))
    obtain ⟨i', hi', hprocessed⟩ := h.info_some i₀ hi₀
    obtain rfl := Option.mem_unique hi' hi
    rw [hprocessed.frame.2.1] at hc
    exact hchildren n i₀ hi₀ c hc
  · rw [h.info_of_ne n hn] at hi
    exact hchildren n i hi c hc

end Stepped

lemma processKeyOperations_stepped (hchildren : ChildrenAbove fc)
    (hsafe : ∀ i, fc.info key = some i → SafeOperations o i) :
    ∃ fc', fc.processKeyOperations key o = some fc' ∧ Stepped fc key o fc' := by
  cases hi : fc.info key with
  | none =>
    refine ⟨fc, processKeyOperations_none o hi, rfl, rfl, fun _ _ => rfl, fun _ => hi, ?_⟩
    intro i hi'
    simp [hi] at hi'
  | some i =>
    obtain ⟨fc', i', heq, hchanged, hprocessed⟩ := processKeyOperations_spec hi (hsafe i hi)
      (fun c hc => ⟨(hchildren key i hi c hc).1, (hchildren key i hi c hc).2.ne'⟩)
    refine ⟨fc', heq, hchanged.treeRoot_eq, hchanged.latestVotes_eq,
      fun n hn => hchanged.info_of_ne hn.symm, by simp [hi], ?_⟩
    intro i₀ hi₀
    obtain rfl := Option.mem_unique hi₀ hi
    exact ⟨i', hchanged.info_self, hprocessed⟩

section Entries
lemma entryOps_cons_self : entryOps ((k, o) :: rest) k = o := by simp [entryOps]

lemma entryOps_cons_of_ne (hn : n ≠ k) : entryOps ((k, o) :: rest) n = entryOps rest n := by
  have hbeq : (n == k) = false := by simpa using hn
  simp [entryOps, lookup_cons, hbeq]

lemma entryOps_of_le (hfirst : ∀ e ∈ rest, e.1 < k) (hkn : k ≤ n) : entryOps rest n = .none := by
  have hlookup : rest.lookup n = none := by
    rw [lookup_eq_none_iff]
    intro e he
    simpa using ((hfirst e he).trans_le hkn).ne'
  simp [entryOps, hlookup]

lemma safeOperations_none (i : ForkInfo) : SafeOperations .none i :=
  ⟨by simp [KeyOperations.none], by simp [KeyOperations.none]⟩

lemma Stepped.safe_rest (h : Stepped fc k o fc') (hfirst : ∀ e ∈ rest, e.1 < k)
    (hsafe : ∀ n i, fc.info n = some i → SafeOperations (entryOps ((k, o) :: rest) n) i) :
    ∀ n i, fc'.info n = some i → SafeOperations (entryOps rest n) i := by
  intro n i hi
  by_cases hn : n = k
  · rw [entryOps_of_le hfirst hn.ge]
    exact safeOperations_none i
  · rw [h.info_of_ne n hn] at hi
    rw [← entryOps_cons_of_ne (o := o) hn]
    exact hsafe n i hi

end Entries

lemma keyProcessed_none_iff : KeyProcessed fc n .none i i' ↔ i' = i := by
  simp [KeyProcessed, KeyOperations.none, localUpdate, clearMark, raiseMark]

section

variable (h : ProcessedBy fc ops fc')

include h

lemma ProcessedBy.keyProcessed (hi : fc.info n = some i)
    (hi' : fc'.info n = some i') : KeyProcessed fc' n (ops n) i i' := by
  obtain ⟨i'', hi'', hp⟩ := h.info_some n i hi
  obtain rfl := Option.mem_unique hi'' hi'
  exact hp

lemma ProcessedBy.info_back (hi' : fc'.info n = some i') :
    ∃ i, fc.info n = some i ∧ KeyProcessed fc' n (ops n) i i' := by
  cases hi : fc.info n with
  | none => simp [h.info_none n hi] at hi'
  | some i => exact ⟨i, rfl, h.keyProcessed hi hi'⟩

lemma ProcessedBy.untouched (hn : ops n = .none) : fc'.info n = fc.info n := by
  cases hi : fc.info n with
  | none => exact h.info_none n hi
  | some i =>
    obtain ⟨i', hi', hp⟩ := h.info_some n i hi
    rw [hn, keyProcessed_none_iff] at hp
    rw [hi', hp]

lemma ProcessedBy.info_none_iff (n : SlotHashKey) : fc'.info n = none ↔ fc.info n = none := by
  refine ⟨?_, h.info_none n⟩
  intro hnone
  by_contra hcon
  obtain ⟨i, hi⟩ := Option.ne_none_iff_exists'.1 hcon
  obtain ⟨i', hi', -⟩ := h.info_some n i hi
  simp [hnone] at hi'

end

lemma Stepped.processedBy (h : Stepped fc k o fc₁) (hfirst : ∀ e ∈ rest, e.1 < k)
    (hchildren : ChildrenAbove fc) (hrest : ProcessedBy fc₁ (entryOps rest) fc') :
    ProcessedBy fc (entryOps ((k, o) :: rest)) fc' := by
  refine ⟨hrest.treeRoot_eq.trans h.treeRoot_eq, hrest.latestVotes_eq.trans h.latestVotes_eq,
    fun n hn => hrest.info_none n ((h.info_none_iff n).2 hn), ?_⟩
  have hfinal : ∀ n, k ≤ n → fc'.info n = fc₁.info n := fun n hkn =>
    hrest.untouched (entryOps_of_le hfirst hkn)
  intro n i hi
  by_cases hn : n = k
  · subst hn
    obtain ⟨i', hi', hp⟩ := h.info_some i hi
    refine ⟨i', (hfinal n (le_refl n)).trans hi', ?_⟩
    rw [entryOps_cons_self]
    refine hp.congr ?_
    intro c hc
    have hlt := (hchildren n i hi c hc).2
    rw [hfinal c hlt.le, h.info_of_ne c hlt.ne']
  · obtain ⟨i', hi', hp⟩ := hrest.info_some n i ((h.info_of_ne n hn).trans hi)
    rw [entryOps_cons_of_ne hn]
    exact ⟨i', hi', hp⟩

lemma foldlM_processed (l : List (SlotHashKey × KeyOperations))
    (hsorted : l.Pairwise (fun a b => b.1 < a.1)) (fc : HeaviestSubtreeForkChoice)
    (hchildren : ChildrenAbove fc)
    (hsafe : ∀ n i, fc.info n = some i → SafeOperations (entryOps l n) i) :
    ∃ fc', l.foldlM (fun fc entry => fc.processKeyOperations entry.1 entry.2) fc = some fc' ∧
      ProcessedBy fc (entryOps l) fc' := by
  induction l generalizing fc with
  | nil =>
    refine ⟨fc, rfl, rfl, rfl, fun _ h => h, ?_⟩
    intro n i hi
    exact ⟨i, hi, keyProcessed_none_iff.2 rfl⟩
  | cons e rest ih =>
    obtain ⟨k, o⟩ := e
    obtain ⟨hfirst, hrest⟩ := pairwise_cons.1 hsorted
    have hsafe_k : ∀ i, fc.info k = some i → SafeOperations o i := by
      intro i hi
      have hk := hsafe k i hi
      rwa [entryOps_cons_self] at hk
    obtain ⟨fc₁, heq₁, hstep⟩ := processKeyOperations_stepped hchildren hsafe_k
    obtain ⟨fc', heq', hprocessed⟩ := ih hrest fc₁ (hstep.childrenAbove hchildren)
      (hstep.safe_rest hfirst hsafe)
    exact ⟨fc', by simp [foldlM_cons, heq₁, heq'], hstep.processedBy hfirst hchildren hprocessed⟩

lemma processKeyOperations_safe (hi : fc.info key = some i)
    (hok : fc.processKeyOperations key o = some fc') : SafeOperations o i := by
  obtain ⟨fc₁, hsub, hok⟩ := Option.bind_eq_some_iff.1 hok
  obtain ⟨fc₂, hinv, -⟩ := Option.bind_eq_some_iff.1 hok
  have hle : ∀ stake, o.subtract = some stake → stake ≤ i.stakeVotedAt ∧ stake ≤ i.stakeVotedSubtree := by
    intro stake hstake
    rw [hstake, Option.elim_some] at hsub
    simp only [subtractSlotStake, hi] at hsub
    obtain ⟨_, hat, hsub⟩ := Option.bind_eq_some_iff.1 hsub
    obtain ⟨_, hsubtree, -⟩ := Option.bind_eq_some_iff.1 hsub
    exact ⟨(checkedSub_eq_some.1 hat).1, (checkedSub_eq_some.1 hsubtree).1⟩
  refine ⟨hle, ?_⟩
  intro hmark
  obtain ⟨slot, hslot⟩ := Option.ne_none_iff_exists'.1 hmark
  obtain ⟨fc₁', heq, hchanged⟩ := subtract_changed hi o.subtract hle
  obtain rfl := Option.mem_unique heq hsub
  rw [hslot, Option.elim_some] at hinv
  simp only [markForkInvalid, hchanged.info_self] at hinv
  obtain ⟨_, hupdate, -⟩ := Option.bind_eq_some_iff.1 hinv
  unfold ForkInfo.updateWithNewlyInvalidAncestor at hupdate
  split at hupdate
  · simp at hupdate
  · rename_i hconf
    simpa using hconf

lemma foldlM_safe (l : List (SlotHashKey × KeyOperations))
    (hsorted : l.Pairwise (fun a b => b.1 < a.1)) (hchildren : ChildrenAbove fc)
    (hok : l.foldlM (fun fc entry => fc.processKeyOperations entry.1 entry.2) fc = some fc') :
    ∀ n i, fc.info n = some i → SafeOperations (entryOps l n) i := by
  induction l generalizing fc with
  | nil => exact fun n i _ => safeOperations_none i
  | cons e rest ih =>
    obtain ⟨k, o⟩ := e
    obtain ⟨hfirst, hrest⟩ := pairwise_cons.1 hsorted
    rw [foldlM_cons] at hok
    obtain ⟨fc₁, hk, hok⟩ := Option.bind_eq_some_iff.1 hok
    have hsafe : ∀ i, fc.info k = some i → SafeOperations o i := fun i hi =>
      processKeyOperations_safe hi hk
    obtain ⟨fc₁', hk', hstep⟩ := processKeyOperations_stepped hchildren hsafe
    obtain rfl := Option.mem_unique hk' hk
    intro n i hi
    by_cases hn : n = k
    · subst hn
      rw [entryOps_cons_self]
      exact hsafe i hi
    · rw [entryOps_cons_of_ne hn]
      exact ih hrest (hstep.childrenAbove hchildren) hok n i ((hstep.info_of_ne n hn).trans hi)

lemma lookup_eq_some_iff_mem {l : List (SlotHashKey × KeyOperations)}
    (hsorted : l.Pairwise (fun a b => b.1 < a.1)) (n : SlotHashKey) (o : KeyOperations) :
    l.lookup n = some o ↔ (n, o) ∈ l := by
  rw [lookup_eq_some_iff]
  constructor
  · rintro ⟨front, back, rfl, -⟩
    exact mem_append_right _ mem_cons_self
  · intro hmem
    obtain ⟨front, back, rfl⟩ := append_of_mem hmem
    refine ⟨front, back, rfl, fun p hp => bne_iff_ne.2 ?_⟩
    exact ((pairwise_append.1 hsorted).2.2 p hp _ mem_cons_self).ne

variable (ops : UpdateOperations)

lemma toList_reverse_sorted : ops.toList.reverse.Pairwise (fun a b => b.1 < a.1) := by
  rw [pairwise_reverse]
  exact Std.TreeMap.ordered_keys_toList.imp fun h => compare_lt_iff_lt.1 h

lemma entryOps_toList_reverse (n : SlotHashKey) : entryOps ops.toList.reverse n = opsAt ops n := by
  unfold entryOps opsAt
  congr 1
  apply Option.ext
  intro o
  rw [lookup_eq_some_iff_mem (toList_reverse_sorted ops), mem_reverse,
    Std.TreeMap.mem_toList_iff_getElem?_eq_some]

/-- Processing a batch never panics on safe operations, and leaves each node as described. -/
theorem processUpdateOperations_spec (hchildren : ChildrenAbove fc)
    (hsafe : ∀ n i, fc.info n = some i → SafeOperations (opsAt ops n) i) :
    ∃ fc', fc.processUpdateOperations ops = some fc' ∧
      ProcessedBy fc (opsAt ops) fc' := by
  obtain ⟨fc', heq, hprocessed⟩ := foldlM_processed ops.toList.reverse (toList_reverse_sorted ops) fc
    hchildren (by simpa only [entryOps_toList_reverse] using hsafe)
  rw [funext (entryOps_toList_reverse ops)] at hprocessed
  exact ⟨fc', heq, hprocessed⟩

lemma processUpdateOperations_safe {ops : UpdateOperations} (hchildren : ChildrenAbove fc)
    (hok : fc.processUpdateOperations ops = some fc') :
    ∀ n i, fc.info n = some i → SafeOperations (opsAt ops n) i := by
  have hsafe := foldlM_safe ops.toList.reverse (toList_reverse_sorted ops) hchildren hok
  simpa only [entryOps_toList_reverse] using hsafe

lemma opsAt_update (key n : SlotHashKey) (f : KeyOperations → KeyOperations) :
    opsAt (UpdateOperations.update ops key f) n =
      if key = n then f (opsAt ops n) else opsAt ops n := by
  unfold UpdateOperations.update opsAt
  rw [Std.TreeMap.getElem?_insert]
  by_cases hn : key = n <;> simp [hn]

lemma opsAt_empty (n : SlotHashKey) : opsAt ∅ n = .none := by
  simp [opsAt]

lemma scheduled_eq_self (h : o.aggregate = true) : { o with aggregate := true } = o := by
  obtain ⟨_, _, _, _, agg⟩ := o
  subst h
  rfl

/-- Scheduling all nodes of an upward path, although the loop stops at the first node that is
already scheduled. -/
lemma opsAt_insertAcrossAncestors (l : List SlotHashKey) (ops : UpdateOperations) (hnodup : l.Nodup)
    (hpath : l.Pairwise (fun a b => (opsAt ops a).aggregate = true →
      (opsAt ops b).aggregate = true)) (n : SlotHashKey) :
    opsAt (insertAcrossAncestors ops l) n =
      if n ∈ l then { opsAt ops n with aggregate := true }
      else opsAt ops n := by
  induction l generalizing ops with
  | nil => simp [insertAcrossAncestors]
  | cons a rest ih =>
    obtain ⟨ha, hrest⟩ := nodup_cons.1 hnodup
    obtain ⟨hfirst, hpath'⟩ := pairwise_cons.1 hpath
    unfold insertAcrossAncestors doInsertAggregateOperation
    by_cases hagg : (opsAt ops a).aggregate = true
    · have hall : ∀ b ∈ a :: rest, (opsAt ops b).aggregate = true :=
        forall_mem_cons.2 ⟨hagg, fun b hb => hfirst b hb hagg⟩
      simp only [hagg, if_true]
      split
      · rename_i hn
        exact (scheduled_eq_self (hall n hn)).symm
      · rfl
    · simp only [hagg, Bool.false_eq_true, if_false, insertMark]
      have hops : ∀ b, b ≠ a → opsAt (UpdateOperations.update ops a
          (fun o => { o with aggregate := true })) b = opsAt ops b := by
        intro b hb
        rw [opsAt_update, if_neg (Ne.symm hb)]
      rw [ih _ hrest]
      · by_cases hn : n = a
        · subst hn
          rw [if_neg ha, if_pos mem_cons_self, opsAt_update, if_pos rfl]
        · rw [hops n hn]
          simp [hn]
      · refine hpath'.imp_of_mem ?_
        intro b c hb hc hbc hflag
        have hba : b ≠ a := fun heq => ha (heq ▸ hb)
        have hca : c ≠ a := fun heq => ha (heq ▸ hc)
        rw [hops b hba] at hflag
        rw [hops c hca]
        exact hbc hflag

def ScheduleClosed (fc : HeaviestSubtreeForkChoice) (ops : UpdateOperations) : Prop :=
  ∀ n p, fc.parent n = some p → (opsAt ops n).aggregate = true →
    (opsAt ops p).aggregate = true

lemma ScheduleClosed.up {ops : UpdateOperations} (h : ScheduleClosed fc ops) {a : SlotHashKey}
    (hup : Up fc n a) (hn : (opsAt ops n).aggregate = true) :
    (opsAt ops a).aggregate = true := by
  induction hup with
  | refl => exact hn
  | tail _ hstep ih => exact h _ _ hstep ih

lemma opsAt_insertAggregateOperations (wf : WellFormed fc) (ops : UpdateOperations)
    (key : SlotHashKey) (hclosed : ∀ a, Up fc key a → a ≠ key → (opsAt ops a).aggregate = true →
      ∀ b, Up fc a b → (opsAt ops b).aggregate = true) (n : SlotHashKey) :
    opsAt (fc.insertAggregateOperations ops key) n =
      if n ∈ fc.ancestorIterator key then { opsAt ops n with aggregate := true }
      else opsAt ops n := by
  obtain ⟨hpw, hall⟩ := wf.ancestors_pairwise (n := key) key.slot
  refine opsAt_insertAcrossAncestors _ ops (hpw.imp (fun h => h.2)) ?_ n
  refine hpw.imp_of_mem ?_
  intro a b ha _ hab hflag
  obtain ⟨hup, hne⟩ := hall a ha
  exact hclosed a hup hne hflag b hab.1

end Nuah.Proofs
