import Nuah.Proofs.ForkSound

/-!
# Validity marks

Marking a node touches its whole subtree and aggregates its ancestors. Invalidity goes down
to the subtree only; duplicate confirmation of a node confirms its ancestors as well.
-/

namespace Nuah.Proofs
open HeaviestSubtreeForkChoice UpdateOperations List Option

variable {i ik : ForkInfo} {n : SlotHashKey} {s : Slot} {mark : Option Slot}

variable {fc fc' : HeaviestSubtreeForkChoice} {k c : SlotHashKey} {slot : Slot}
  {ops : SlotHashKey → KeyOperations}

/-- The subtree at `k` is marked and aggregated, the ancestors of `k` are aggregated. -/
structure MarkBatch (fc : HeaviestSubtreeForkChoice) (k : SlotHashKey) (validity : ForkValidity)
    (ops : SlotHashKey → KeyOperations) : Prop where
  below : ∀ n, Up fc n k → ops n = { insertMark (some validity) .none with aggregate := true }
  above : ∀ n, Up fc k n → n ≠ k → ops n = { KeyOperations.none with aggregate := true }
  other : ∀ n, ¬ Up fc n k → ¬ Up fc k n → ops n = .none

lemma opsAt_insertForkMarks (validity : ForkValidity) (l : List SlotHashKey) (hnodup : l.Nodup)
    (ops : UpdateOperations) (hfree : ∀ n ∈ l, opsAt ops n = .none) (n : SlotHashKey) :
    opsAt (insertForkMarks validity ops l) n =
      if n ∈ l then { insertMark (some validity) .none with aggregate := true }
      else opsAt ops n := by
  induction l generalizing ops with
  | nil => simp [insertForkMarks]
  | cons a rest ih =>
    obtain ⟨ha, hrest⟩ := nodup_cons.1 hnodup
    have hfirst : (doInsertAggregateOperation ops (some validity) a).getD ops =
        UpdateOperations.update ops a
          (fun o => { insertMark (some validity) o with aggregate := true }) := by
      simp [doInsertAggregateOperation, hfree a mem_cons_self, KeyOperations.none]
    have hcons : insertForkMarks validity ops (a :: rest) = insertForkMarks validity
        (UpdateOperations.update ops a (fun o => { insertMark (some validity) o with aggregate := true }))
        rest := by
      simp only [insertForkMarks, foldl_cons, hfirst]
    rw [hcons, ih hrest]
    · rw [opsAt_update]
      by_cases hn : n = a
      · subst hn
        simp [ha, hfree n mem_cons_self]
      · simp [hn, Ne.symm hn]
    · intro m hm
      have hne : a ≠ m := fun heq => ha (heq ▸ hm)
      rw [opsAt_update, if_neg hne]
      exact hfree m (mem_cons_of_mem _ hm)

lemma markBatch_of_mem (wf : WellFormed fc) (hk : fc.info k = some i)
    (hdefault : k ≠ SlotHashKey.default) (validity : ForkValidity) :
    ∃ fork, fc.subtreeDiff k SlotHashKey.default = some fork ∧
      MarkBatch fc k validity (opsAt
        (fc.insertAggregateOperations (insertForkMarks validity ∅ fork) k)) := by
  obtain ⟨fork, hfork, hnodup, hreach⟩ := wf.reachable_all (some SlotHashKey.default) hk
  have hmem : ∀ n, n ∈ fork ↔ Up fc n k := by
    intro n
    rw [hreach n]
    refine ⟨fun h => h.1, fun h => ⟨h, ?_⟩⟩
    rintro r hr ⟨-, hrk⟩
    cases hr
    exact hdefault (wf.eq_of_up_of_slot_le hrk (Nat.zero_le _)).symm
  have hmarks : ∀ n, opsAt (insertForkMarks validity ∅ fork) n =
      if n ∈ fork then { insertMark (some validity) .none with aggregate := true }
      else KeyOperations.none := by
    intro n
    rw [opsAt_insertForkMarks validity fork hnodup ∅ (fun m _ => opsAt_empty m), opsAt_empty]
  have hops := opsAt_insertAggregateOperations wf (insertForkMarks validity ∅ fork) k (by
    intro a hka hne hagg
    rw [hmarks a, if_neg] at hagg
    · simp [KeyOperations.none] at hagg
    · rw [hmem a]
      exact fun hak => hne (wf.up_antisymm hak hka))
  refine ⟨fork, by simp [subtreeDiff, containsBlock, hk, hfork], ?_, ?_, ?_⟩
  · intro n hn
    have hnot : n ∉ fc.ancestorIterator k := by
      rw [wf.mem_ancestorIterator]
      exact fun h => h.2 (wf.up_antisymm hn h.1)
    rw [hops n, if_neg hnot, hmarks n, if_pos ((hmem n).2 hn)]
  · intro n hkn hne
    have hnot : n ∉ fork := by
      rw [hmem n]
      exact fun hnk => hne (wf.up_antisymm hnk hkn)
    rw [hops n, if_pos (wf.mem_ancestorIterator.2 ⟨hkn, hne⟩), hmarks n, if_neg hnot]
  · intro n hnk hkn
    have hnot : n ∉ fc.ancestorIterator k := by
      rw [wf.mem_ancestorIterator]
      exact fun h => hkn h.1
    rw [hops n, if_neg hnot, hmarks n, if_neg (mt (hmem n).1 hnk)]

lemma processUpdateOperations_default (hk : fc.info SlotHashKey.default = some i)
    (validity : ForkValidity) :
    fc.subtreeDiff SlotHashKey.default SlotHashKey.default = some [] ∧
      fc.processUpdateOperations
        (fc.insertAggregateOperations (insertForkMarks validity ∅ []) SlotHashKey.default) = some fc := by
  constructor
  · simp [subtreeDiff, containsBlock, hk, reachable]
  · have hnone : fc.ancestorIterator SlotHashKey.default = [] := rfl
    simp only [insertAggregateOperations, hnone, insertAcrossAncestors, insertForkMarks, foldl_nil]
    rfl

namespace MarkBatch
variable {validity : ForkValidity}

section

variable (h : MarkBatch fc k validity ops)

include h

lemma scheduled (wf : WellFormed fc) : Scheduled fc ops := by
  refine ⟨?_, ?_⟩
  · intro n p hp htouched
    by_cases hnk : Up fc n k
    · rcases hnk.cases_head with rfl | ⟨q, hq, hqk⟩
      · rw [h.above p (Up.of_parent hp) (wf.up_of_parent hp (Up.refl fc p)).2]
      · obtain rfl := mem_unique hq hp
        rw [h.below q hqk]
    · by_cases hkn : Up fc k n
      · obtain ⟨hkp, hne⟩ := wf.mem_ancestorIterator.1 (wf.parent_mem_ancestorIterator hkn hp)
        rw [h.above p hkp hne]
      · exact absurd (h.other n hnk hkn) htouched
  · intro n hmark
    by_cases hnk : Up fc n k
    · rw [h.below n hnk]
    · by_cases hkn : Up fc k n
      · rw [h.above n hkn (fun heq => hnk (heq ▸ Up.refl fc n))]
      · rw [h.other n hnk hkn] at hmark
        simp [KeyOperations.none] at hmark

lemma subtract_eq (n : SlotHashKey) : (ops n).subtract = none ∧ (ops n).add = none := by
  by_cases hnk : Up fc n k
  · rw [h.below n hnk]
    cases validity <;> simp [insertMark, KeyOperations.none]
  · by_cases hkn : Up fc k n
    · rw [h.above n hkn (fun heq => hnk (heq ▸ Up.refl fc n))]
      simp [KeyOperations.none]
    · rw [h.other n hnk hkn]
      simp [KeyOperations.none]

lemma stakeVotedAt_eq (hprocessed : ProcessedBy fc ops fc') :
    ∀ n i, fc.info n = some i → ∀ i', fc'.info n = some i' → i'.stakeVotedAt = i.stakeVotedAt := by
  intro n i hi i' hi'
  rw [(hprocessed.keyProcessed hi hi').frame.2.2, (h.subtract_eq n).1, (h.subtract_eq n).2]
  rfl

end

end MarkBatch

namespace MarksConsistent
lemma confirmed_of_up (h : MarksConsistent fc) {a : SlotHashKey} (hup : Up fc n a)
    (hi : fc.info n = some i) (hconf : i.isDuplicateConfirmed = true) {ia : ForkInfo}
    (hia : fc.info a = some ia) : ia.isDuplicateConfirmed = true := by
  induction hup generalizing ia with
  | refl =>
    obtain rfl := mem_unique hi hia
    exact hconf
  | @tail b c _ hstep ih =>
    obtain ⟨ib, hib, hparent⟩ := parent_eq_some.1 hstep
    exact h.confirmed_up b ib c ia hib hparent hia (ih hib)

lemma not_confirmed_below (h : MarksConsistent fc) (hk : fc.info k = some ik)
    (hconf : ik.isDuplicateConfirmed = false) (hup : Up fc n k) (hi : fc.info n = some i) :
    i.isDuplicateConfirmed = false := by
  by_contra hcon
  have htrue := h.confirmed_of_up hup hi (by simpa using hcon) hk
  simp [hconf] at htrue

lemma confirmed_of_child (h : MarksConsistent fc) (wf : WellFormed fc) {ic : ForkInfo}
    (hi : fc.info n = some i) (hc : c ∈ i.children) (hic : fc.info c = some ic)
    (hconf : ic.isDuplicateConfirmed = true) :
    i.isDuplicateConfirmed = true ∧ i.latestInvalidAncestor = none := by
  obtain ⟨ic', hic', hparent, -⟩ := wf.child_mem n i c hi hc
  obtain rfl := mem_unique hic' hic
  have hself := h.confirmed_up c ic' n i hic' hparent hi hconf
  exact ⟨hself, h.confirmed_valid n i hi hself⟩

end MarksConsistent

lemma KeyProcessed.aggregated_marks {o : KeyOperations} {i' : ForkInfo}
    (h : KeyProcessed fc n o i i') (hagg : o.aggregate = true) :
    (i.children.any (confirmed fc) = true →
      i'.isDuplicateConfirmed = true ∧ i'.latestInvalidAncestor = none) ∧
    (i.children.any (confirmed fc) = false →
      i'.isDuplicateConfirmed = (i.isDuplicateConfirmed || decide (o.markValid = some n.slot)) ∧
      i'.latestInvalidAncestor = clearMark o.markValid (raiseMark o.markInvalid i.latestInvalidAncestor)) := by
  rw [KeyProcessed, if_pos hagg] at h
  have hm := h.marks
  have hchildren : (localUpdate n o i).children = i.children := rfl
  rw [hchildren] at hm
  constructor
  · intro hany
    rwa [if_pos hany] at hm
  · intro hany
    rwa [if_neg (by simp [hany])] at hm

/-- The subtree at `k` is marked invalid from `k` on. -/
structure MarkedInvalid (fc : HeaviestSubtreeForkChoice) (k : SlotHashKey)
    (fc' : HeaviestSubtreeForkChoice) : Prop extends SameTree fc fc' where
  latestVotes_eq : fc'.latestVotes = fc.latestVotes
  stakeVotedAt_eq : ∀ n i, fc.info n = some i → ∀ i', fc'.info n = some i' →
    i'.stakeVotedAt = i.stakeVotedAt
  confirmed_eq : ∀ n i, fc.info n = some i → ∀ i', fc'.info n = some i' →
    i'.isDuplicateConfirmed = i.isDuplicateConfirmed
  mark_below : ∀ n i, fc.info n = some i → ∀ i', fc'.info n = some i' → Up fc n k →
    i'.latestInvalidAncestor = raiseMark (some k.slot) i.latestInvalidAncestor
  mark_other : ∀ n i, fc.info n = some i → ∀ i', fc'.info n = some i' → ¬ Up fc n k →
    i'.latestInvalidAncestor = i.latestInvalidAncestor

lemma le_raiseMark (slot : Slot) (h : mark = some s) :
    ∃ s', raiseMark (some slot) mark = some s' ∧ s ≤ s' := by
  subst h
  unfold raiseMark
  by_cases hlt : s < slot
  · exact ⟨slot, by simp [hlt], le_of_lt hlt⟩
  · exact ⟨s, by simp [hlt], le_refl s⟩

lemma slot_le_raiseMark (slot : Slot) (mark : Option Slot) :
    ∃ s, raiseMark (some slot) mark = some s ∧ slot ≤ s ∧ (s = slot ∨ mark = some s) := by
  cases mark with
  | none => exact ⟨slot, by simp [raiseMark], le_refl _, .inl rfl⟩
  | some latest =>
    unfold raiseMark
    by_cases hlt : latest < slot
    · exact ⟨slot, by simp [hlt], le_refl _, .inl rfl⟩
    · exact ⟨latest, by simp [hlt], Nat.le_of_not_lt hlt, .inr rfl⟩

lemma raiseMark_mono {mark' : Option Slot}
    (hdown : ∀ t, mark = some t → ∃ t', mark' = some t' ∧ t ≤ t')
    (h : raiseMark (some slot) mark = some s) :
    ∃ s', raiseMark (some slot) mark' = some s' ∧ s ≤ s' := by
  obtain ⟨s₀, hs₀, -, hcases⟩ := slot_le_raiseMark slot mark
  obtain rfl := mem_unique hs₀ h
  rcases hcases with rfl | hmark
  · obtain ⟨s', hs', hle, -⟩ := slot_le_raiseMark s₀ mark'
    exact ⟨s', hs', hle⟩
  · obtain ⟨t', ht', hle⟩ := hdown s₀ hmark
    obtain ⟨s', hs', hle'⟩ := le_raiseMark slot ht'
    exact ⟨s', hs', hle.trans hle'⟩

lemma MarkBatch.markedInvalid (h : MarkBatch fc k (.markInvalid k.slot) ops) (hsound : Sound fc)
    (hk : fc.info k = some ik) (hconf : ik.isDuplicateConfirmed = false)
    (hprocessed : ProcessedBy fc ops fc') : MarkedInvalid fc k fc' := by
  have wf := hsound.wf
  have hmarks := hsound.marks
  -- from the leaves to the root: no node becomes confirmed
  have key : ∀ n i, fc.info n = some i → ∀ i₀ i', fc.info n = some i₀ → fc'.info n = some i' →
      i'.isDuplicateConfirmed = i₀.isDuplicateConfirmed ∧
      (Up fc n k → i'.latestInvalidAncestor = raiseMark (some k.slot) i₀.latestInvalidAncestor) ∧
      (¬ Up fc n k → i'.latestInvalidAncestor = i₀.latestInvalidAncestor) := by
    refine wf.child_induction ?_
    intro n i hi ih i₀ i' hi₀ hi'
    obtain rfl := mem_unique hi₀ hi
    have hp := hprocessed.keyProcessed hi hi'
    have hany : i₀.children.any (confirmed fc') = true →
        i₀.isDuplicateConfirmed = true ∧ i₀.latestInvalidAncestor = none := by
      intro hany
      obtain ⟨c, hc, hcconf⟩ := any_eq_true.1 hany
      obtain ⟨ic, hic, -⟩ := wf.child_mem n i₀ c hi hc
      obtain ⟨ic', hic', -⟩ := hprocessed.info_some c ic hic
      rw [confirmed_of_info hic', (ih c hc ic ic' hic hic').1] at hcconf
      exact hmarks.confirmed_of_child wf hi hc hic hcconf
    by_cases hnk : Up fc n k
    · have hself := hmarks.not_confirmed_below hk hconf hnk hi
      have hnone : i₀.children.any (confirmed fc') = false := by
        rw [← Bool.not_eq_true]
        intro hcon
        have htrue := (hany hcon).1
        simp [hself] at htrue
      rw [h.below n hnk] at hp
      obtain ⟨hc, hl⟩ := (hp.aggregated_marks rfl).2 hnone
      refine ⟨?_, fun _ => hl, fun hcon => absurd hnk hcon⟩
      simpa [insertMark, KeyOperations.none] using hc
    · have hsame : i'.isDuplicateConfirmed = i₀.isDuplicateConfirmed ∧
          i'.latestInvalidAncestor = i₀.latestInvalidAncestor := by
        by_cases hkn : Up fc k n
        · rw [h.above n hkn (fun heq => hnk (heq ▸ Up.refl fc n))] at hp
          obtain ⟨htrue, hfalse⟩ := hp.aggregated_marks rfl
          by_cases hc : i₀.children.any (confirmed fc') = true
          · rw [(hany hc).1, (hany hc).2]
            exact htrue hc
          · simpa [KeyOperations.none, clearMark, raiseMark] using hfalse (by simpa using hc)
        · rw [h.other n hnk hkn, keyProcessed_none_iff] at hp
          rw [hp]
          exact ⟨rfl, rfl⟩
      exact ⟨hsame.1, fun hcon => absurd hcon hnk, fun _ => hsame.2⟩
  exact ⟨hprocessed.sameTree, hprocessed.latestVotes_eq, h.stakeVotedAt_eq hprocessed,
    fun n i hi i' hi' => (key n i hi i i' hi hi').1,
    fun n i hi i' hi' => (key n i hi i i' hi hi').2.1,
    fun n i hi i' hi' => (key n i hi i i' hi hi').2.2⟩

lemma MarkedInvalid.marksConsistent (h : MarkedInvalid fc k fc') (wf : WellFormed fc)
    (hmarks : MarksConsistent fc) (hk : fc.info k = some ik)
    (hconf : ik.isDuplicateConfirmed = false) :
    MarksConsistent fc' := by
  refine ⟨?_, ?_, ?_, ?_⟩
  · intro n i' p ip' hi' hp' hip' hc
    obtain ⟨i, hi, hp, -⟩ := h.info_back hi'
    obtain ⟨ip, hip, -⟩ := h.info_back hip'
    rw [h.confirmed_eq p ip hip ip' hip']
    exact hmarks.confirmed_up n i p ip hi (hp ▸ hp') hip (h.confirmed_eq n i hi i' hi' ▸ hc)
  · intro n i' hi' hc
    obtain ⟨i, hi, -⟩ := h.info_back hi'
    rw [h.confirmed_eq n i hi i' hi'] at hc
    have hout : ¬ Up fc n k := by
      intro hnk
      have hfalse := hmarks.not_confirmed_below hk hconf hnk hi
      simp [hfalse] at hc
    rw [h.mark_other n i hi i' hi' hout]
    exact hmarks.confirmed_valid n i hi hc
  · intro n i' s hi' hs
    obtain ⟨i, hi, -⟩ := h.info_back hi'
    by_cases hnk : Up fc n k
    · rw [h.mark_below n i hi i' hi' hnk] at hs
      obtain ⟨s', hs', -, hcases⟩ := slot_le_raiseMark k.slot i.latestInvalidAncestor
      obtain rfl := mem_unique hs' hs
      rcases hcases with rfl | hold
      · exact wf.slot_le_of_up hnk
      · exact hmarks.mark_le n i s' hi hold
    · rw [h.mark_other n i hi i' hi' hnk] at hs
      exact hmarks.mark_le n i s hi hs
  · intro n i' p ip' s hi' hp' hip' hs
    obtain ⟨i, hi, hp, -⟩ := h.info_back hi'
    obtain ⟨ip, hip, -⟩ := h.info_back hip'
    have hparent : fc.parent n = some p := parent_eq_some.2 ⟨i, hi, hp ▸ hp'⟩
    have hdown : ∀ t, ip.latestInvalidAncestor = some t →
        ∃ t', i.latestInvalidAncestor = some t' ∧ t ≤ t' := fun t ht =>
      hmarks.mark_down n i p ip t hi (hp ▸ hp') hip ht
    by_cases hpk : Up fc p k
    · rw [h.mark_below p ip hip ip' hip' hpk] at hs
      rw [h.mark_below n i hi i' hi' ((Up.of_parent hparent).trans hpk)]
      exact raiseMark_mono hdown hs
    · rw [h.mark_other p ip hip ip' hip' hpk] at hs
      obtain ⟨t', ht', hle⟩ := hdown s hs
      by_cases hnk : Up fc n k
      · rw [h.mark_below n i hi i' hi' hnk]
        obtain ⟨s', hs', hle'⟩ := le_raiseMark k.slot ht'
        exact ⟨s', hs', hle.trans hle'⟩
      · rw [h.mark_other n i hi i' hi' hnk]
        exact ⟨t', ht', hle⟩

/-- Whether a batch is safe is decided at the nodes that it marks. -/
lemma MarkBatch.safe {validity : ForkValidity} {ops : SlotHashKey → KeyOperations}
    (h : MarkBatch fc k validity ops)
    (hbelow : ∀ n i, fc.info n = some i → Up fc n k → (ops n).markInvalid ≠ none →
      i.isDuplicateConfirmed = false) :
    ∀ n i, fc.info n = some i → SafeOperations (ops n) i := by
  intro n i hi
  refine ⟨by simp [(h.subtract_eq n).1], fun hmark => ?_⟩
  by_cases hnk : Up fc n k
  · exact hbelow n i hi hnk hmark
  · by_cases hkn : Up fc k n
    · rw [h.above n hkn (fun heq => hnk (heq ▸ Up.refl fc n))] at hmark
      exact absurd rfl hmark
    · rw [h.other n hnk hkn] at hmark
      exact absurd rfl hmark

/-- An unconfirmed node can be marked invalid: the assertion of
`update_with_newly_invalid_ancestor` holds in its whole subtree. -/
theorem markForkInvalidCandidate_spec (hsound : Sound fc) (hk : fc.info k = some ik)
    (hconf : ik.isDuplicateConfirmed = false) (hdefault : k ≠ SlotHashKey.default) :
    ∃ fc', fc.markForkInvalidCandidate k = some fc' ∧ Sound fc' ∧ MarkedInvalid fc k fc' := by
  have wf := hsound.wf
  obtain ⟨fork, hfork, hbatch⟩ := markBatch_of_mem wf hk hdefault (.markInvalid k.slot)
  have hsafe := hbatch.safe fun n i hi hnk _ => hsound.marks.not_confirmed_below hk hconf hnk hi
  obtain ⟨fc', heq, hprocessed⟩ := processUpdateOperations_spec _ wf.childrenAbove hsafe
  have hmarked := hbatch.markedInvalid hsound hk hconf hprocessed
  refine ⟨fc', ?_, ⟨hmarked.wellFormed wf, ?_, hmarked.marksConsistent wf hsound.marks hk hconf⟩, hmarked⟩
  · simp [markForkInvalidCandidate, hk, hconf, hfork, heq]
  · exact hprocessed.upToDate (hbatch.scheduled wf) wf hsafe fun n i hi _ => hsound.upToDate n i hi

/-- `k` and its ancestors are duplicate confirmed; marks of `k` and above are cleared in the
subtree at `k`. -/
structure MarkedValid (fc : HeaviestSubtreeForkChoice) (k : SlotHashKey)
    (fc' : HeaviestSubtreeForkChoice) : Prop extends SameTree fc fc' where
  latestVotes_eq : fc'.latestVotes = fc.latestVotes
  stakeVotedAt_eq : ∀ n i, fc.info n = some i → ∀ i', fc'.info n = some i' →
    i'.stakeVotedAt = i.stakeVotedAt
  confirmed_iff : ∀ n i, fc.info n = some i → ∀ i', fc'.info n = some i' →
    (i'.isDuplicateConfirmed = true ↔ i.isDuplicateConfirmed = true ∨ Up fc k n)
  mark_above : ∀ n i, fc.info n = some i → ∀ i', fc'.info n = some i' → Up fc k n →
    i'.latestInvalidAncestor = none
  mark_below : ∀ n i, fc.info n = some i → ∀ i', fc'.info n = some i' → Up fc n k → n ≠ k →
    i'.latestInvalidAncestor = clearMark (some k.slot) i.latestInvalidAncestor
  mark_other : ∀ n i, fc.info n = some i → ∀ i', fc'.info n = some i' → ¬ Up fc n k → ¬ Up fc k n →
    i'.latestInvalidAncestor = i.latestInvalidAncestor

lemma clearMark_eq_some : clearMark (some slot) mark = some s ↔ mark = some s ∧ slot < s := by
  simp [clearMark, filter_eq_some_iff]

lemma WellFormed.not_up_child (wf : WellFormed fc) (hc : fc.parent c = some n) (hnk : Up fc n k) :
    ¬ Up fc k c := fun hkc =>
  absurd ((wf.slot_le_of_up hkc).trans (wf.slot_le_of_up hnk)) (Nat.not_le.2 (wf.slot_lt_of_parent hc))

lemma MarkBatch.markedValid (h : MarkBatch fc k (.markValid k.slot) ops) (hsound : Sound fc)
    (hprocessed : ProcessedBy fc ops fc') : MarkedValid fc k fc' := by
  have wf := hsound.wf
  have hmarks := hsound.marks
  -- from the leaves to the root: the child on the way to `k` is confirmed first
  have key : ∀ n i, fc.info n = some i → ∀ i₀ i', fc.info n = some i₀ → fc'.info n = some i' →
      (i'.isDuplicateConfirmed = true ↔ i₀.isDuplicateConfirmed = true ∨ Up fc k n) ∧
      (Up fc k n → i'.latestInvalidAncestor = none) ∧
      (Up fc n k → n ≠ k →
        i'.latestInvalidAncestor = clearMark (some k.slot) i₀.latestInvalidAncestor) ∧
      (¬ Up fc n k → ¬ Up fc k n → i'.latestInvalidAncestor = i₀.latestInvalidAncestor) := by
    refine wf.child_induction ?_
    intro n i hi ih i₀ i' hi₀ hi'
    obtain rfl := mem_unique hi₀ hi
    have hp := hprocessed.keyProcessed hi hi'
    have hchild : ∀ c ∈ i₀.children, confirmed fc' c = true ↔
        confirmed fc c = true ∨ Up fc k c := by
      intro c hc
      obtain ⟨ic, hic, -⟩ := wf.child_mem n i₀ c hi hc
      obtain ⟨ic', hic', -⟩ := hprocessed.info_some c ic hic
      rw [confirmed_of_info hic', confirmed_of_info hic]
      exact (ih c hc ic ic' hic hic').1
    by_cases hnk : Up fc n k
    · rw [h.below n hnk] at hp
      obtain ⟨htrue, hfalse⟩ := hp.aggregated_marks rfl
      have hslot : (some k.slot = some n.slot) ↔ Up fc k n := by
        rw [Option.some.injEq]
        constructor
        · intro heq
          rw [wf.eq_of_up_of_slot_le hnk heq.ge]
          exact Up.refl fc k
        · exact fun hkn => le_antisymm (wf.slot_le_of_up hnk) (wf.slot_le_of_up hkn)
      by_cases hany : i₀.children.any (confirmed fc') = true
      · -- a confirmed child is strictly below `k`, so it was confirmed before
        obtain ⟨c, hc, hcconf⟩ := any_eq_true.1 hany
        have hkc : ¬ Up fc k c := wf.not_up_child (wf.parent_iff.2 ⟨i₀, hi, hc⟩) hnk
        obtain ⟨ic, hic, -⟩ := wf.child_mem n i₀ c hi hc
        have hcold : ic.isDuplicateConfirmed = true := by
          rw [← confirmed_of_info hic]
          exact ((hchild c hc).1 hcconf).resolve_right hkc
        obtain ⟨hself, hvalid⟩ := hmarks.confirmed_of_child wf hi hc hic hcold
        obtain ⟨hconf, hmark⟩ := htrue hany
        refine ⟨by simp [hconf, hself], fun _ => hmark, fun _ _ => ?_, fun hcon => absurd hnk hcon⟩
        rw [hmark, hvalid]
        rfl
      · obtain ⟨hconf, hmark⟩ := hfalse (by simpa using hany)
        refine ⟨?_, ?_, fun _ _ => hmark, fun hcon => absurd hnk hcon⟩
        · rw [hconf, Bool.or_eq_true, decide_eq_true_iff]
          exact or_congr_right hslot
        · intro hkn
          have hle : ∀ s, i₀.latestInvalidAncestor = some s → s ≤ k.slot := fun s hs =>
            (hmarks.mark_le n i₀ s hi hs).trans (wf.slot_le_of_up hkn)
          rw [eq_none_iff_forall_ne_some]
          intro s hs
          obtain ⟨hold, hlt⟩ := clearMark_eq_some.1 (hmark.symm.trans hs)
          exact absurd (hle s hold) (Nat.not_le.2 hlt)
    · by_cases hkn : Up fc k n
      · rw [h.above n hkn (fun heq => hnk (heq ▸ Up.refl fc n))] at hp
        have hany : i₀.children.any (confirmed fc') = true := by
          rcases hkn.cases_child with rfl | ⟨c, hkc, hc⟩
          · exact absurd (Up.refl fc k) hnk
          · obtain ⟨ip, hip, hmem⟩ := wf.parent_iff.1 hc
            obtain rfl := mem_unique hip hi
            exact any_eq_true.2 ⟨c, hmem, (hchild c hmem).2 (.inr hkc)⟩
        obtain ⟨hconf, hmark⟩ := (hp.aggregated_marks rfl).1 hany
        exact ⟨by simp [hconf, hkn], fun _ => hmark, fun hcon => absurd hcon hnk,
          fun _ hcon => absurd hkn hcon⟩
      · rw [h.other n hnk hkn, keyProcessed_none_iff] at hp
        subst hp
        exact ⟨by simp [hkn], fun hcon => absurd hcon hkn, fun hcon => absurd hcon hnk, fun _ _ => rfl⟩
  exact ⟨hprocessed.sameTree, hprocessed.latestVotes_eq, h.stakeVotedAt_eq hprocessed,
    fun n i hi i' hi' => (key n i hi i i' hi hi').1,
    fun n i hi i' hi' => (key n i hi i i' hi hi').2.1,
    fun n i hi i' hi' => (key n i hi i i' hi hi').2.2.1,
    fun n i hi i' hi' => (key n i hi i i' hi hi').2.2.2⟩

lemma MarkedValid.marksConsistent (h : MarkedValid fc k fc') (hmarks : MarksConsistent fc) :
    MarksConsistent fc' := by
  -- marks only disappear
  have hold : ∀ n i, fc.info n = some i → ∀ i', fc'.info n = some i' → ∀ s,
      i'.latestInvalidAncestor = some s → i.latestInvalidAncestor = some s := by
    intro n i hi i' hi' s hs
    by_cases hkn : Up fc k n
    · simp [h.mark_above n i hi i' hi' hkn] at hs
    · by_cases hnk : Up fc n k
      · have hne : n ≠ k := fun heq => hkn (heq ▸ Up.refl fc n)
        rw [h.mark_below n i hi i' hi' hnk hne] at hs
        exact (clearMark_eq_some.1 hs).1
      · rw [h.mark_other n i hi i' hi' hnk hkn] at hs
        exact hs
  refine ⟨?_, ?_, ?_, ?_⟩
  · intro n i' p ip' hi' hp' hip' hc
    obtain ⟨i, hi, hp, -⟩ := h.info_back hi'
    obtain ⟨ip, hip, -⟩ := h.info_back hip'
    rw [h.confirmed_iff p ip hip ip' hip']
    rcases (h.confirmed_iff n i hi i' hi').1 hc with hc | hkn
    · exact .inl (hmarks.confirmed_up n i p ip hi (hp ▸ hp') hip hc)
    · exact .inr (hkn.trans (Up.of_parent (parent_eq_some.2 ⟨i, hi, hp ▸ hp'⟩)))
  · intro n i' hi' hc
    obtain ⟨i, hi, -⟩ := h.info_back hi'
    rcases (h.confirmed_iff n i hi i' hi').1 hc with hc | hkn
    · rw [eq_none_iff_forall_ne_some]
      intro s hs
      exact absurd (hold n i hi i' hi' s hs) (by simp [hmarks.confirmed_valid n i hi hc])
    · exact h.mark_above n i hi i' hi' hkn
  · intro n i' s hi' hs
    obtain ⟨i, hi, -⟩ := h.info_back hi'
    exact hmarks.mark_le n i s hi (hold n i hi i' hi' s hs)
  · intro n i' p ip' s hi' hp' hip' hs
    obtain ⟨i, hi, hp, -⟩ := h.info_back hi'
    obtain ⟨ip, hip, -⟩ := h.info_back hip'
    have hparent : fc.parent n = some p := parent_eq_some.2 ⟨i, hi, hp ▸ hp'⟩
    have hkp : ¬ Up fc k p := by
      intro hkp
      simp [h.mark_above p ip hip ip' hip' hkp] at hs
    have hkn : ¬ Up fc k n := fun hkn => hkp (hkn.trans (Up.of_parent hparent))
    obtain ⟨s', hs', hle⟩ := hmarks.mark_down n i p ip s hi (hp ▸ hp') hip (hold p ip hip ip' hip' s hs)
    refine ⟨s', ?_, hle⟩
    by_cases hpk : Up fc p k
    · have hnk : Up fc n k := (Up.of_parent hparent).trans hpk
      have hne : ∀ m, ¬ Up fc k m → m ≠ k := fun m hm heq => hm (heq ▸ Up.refl fc m)
      rw [h.mark_below p ip hip ip' hip' hpk (hne p hkp)] at hs
      rw [h.mark_below n i hi i' hi' hnk (hne n hkn)]
      exact clearMark_eq_some.2 ⟨hs', lt_of_lt_of_le (clearMark_eq_some.1 hs).2 hle⟩
    · have hnk : ¬ Up fc n k := by
        intro hnk
        rcases hnk.cases_head with rfl | ⟨q, hq, hqk⟩
        · exact hkn (Up.refl fc n)
        · exact hpk (mem_unique hparent hq ▸ hqk)
      rw [h.mark_other n i hi i' hi' hnk hkn]
      exact hs'

lemma filterM_total {α : Type} {f : α → Option Bool} (l : List α) (h : ∀ x ∈ l, f x ≠ none) :
    ∃ r, l.filterM f = some r := by
  have haux : ∀ acc, ∃ r, l.filterAuxM f acc = some r := by
    induction l with
    | nil => exact fun acc => ⟨acc, rfl⟩
    | cons x l ih =>
      intro acc
      obtain ⟨b, hb⟩ := ne_none_iff_exists'.1 (h x mem_cons_self)
      obtain ⟨r, hr⟩ := ih (fun y hy => h y (mem_cons_of_mem _ hy)) (bif b then x :: acc else acc)
      exact ⟨r, by simp [List.filterAuxM, hb, hr]⟩
  obtain ⟨r, hr⟩ := haux []
  exact ⟨r.reverse, by simp [List.filterM, hr]⟩

lemma newlyConfirmed_total (wf : WellFormed fc) (hk : fc.info k ≠ none) :
    ∃ l, (k :: fc.ancestorIterator k).filterM
      (fun key => (fc.isDuplicateConfirmed key).map (fun confirmed => !confirmed)) = some l := by
  apply filterM_total
  intro n hn
  have hin : fc.info n ≠ none := by
    rcases mem_cons.1 hn with rfl | hn
    · exact hk
    · exact wf.mem_of_up (wf.mem_ancestorIterator.1 hn).1 hk
  obtain ⟨i, hi⟩ := ne_none_iff_exists'.1 hin
  simp [HeaviestSubtreeForkChoice.isDuplicateConfirmed, hi]

/-- A node of the tree can be marked valid. -/
theorem markForkValidCandidate_spec (hsound : Sound fc) (hk : fc.info k = some ik)
    (hdefault : k ≠ SlotHashKey.default) :
    ∃ fc' l, fc.markForkValidCandidate k = some (fc', l) ∧ Sound fc' ∧ MarkedValid fc k fc' := by
  have wf := hsound.wf
  obtain ⟨fork, hfork, hbatch⟩ := markBatch_of_mem wf hk hdefault (.markValid k.slot)
  have hsafe := hbatch.safe fun n i hi hnk hmark => by
    rw [hbatch.below n hnk] at hmark
    exact absurd rfl hmark
  obtain ⟨fc', heq, hprocessed⟩ := processUpdateOperations_spec _ wf.childrenAbove hsafe
  have hmarked := hbatch.markedValid hsound hprocessed
  obtain ⟨l, hl⟩ := newlyConfirmed_total wf (k := k) (by simp [hk])
  refine ⟨fc', l, ?_, ⟨hmarked.wellFormed wf, ?_, hmarked.marksConsistent hsound.marks⟩, hmarked⟩
  · simp [markForkValidCandidate, hl, hfork, heq]
  · exact hprocessed.upToDate (hbatch.scheduled wf) wf hsafe fun n i hi _ => hsound.upToDate n i hi

end Nuah.Proofs
