import Nuah.Proofs.ForkVotes
import Nuah.Proofs.LeafPropagation

/-!
# Adding a leaf

The links of the new leaf, and the proof that patching best and deepest slots upwards leaves
every node as a recomputation from its children would.
-/

namespace Nuah.Proofs
open HeaviestSubtreeForkChoice Champion Option
open scoped List

variable {c n : SlotHashKey} {i i' : ForkInfo} {env : VoteStakes}

variable {key p : SlotHashKey} {children : List SlotHashKey}
  {fc₁ fc fc' : HeaviestSubtreeForkChoice} {ip : ForkInfo}

lemma mem_insertChild : c ∈ insertChild key children ↔ c = key ∨ c ∈ children := by
  unfold insertChild
  split
  · rename_i hmem
    constructor
    · exact .inr
    · rintro (rfl | hc)
      · exact hmem
      · exact hc
  · exact List.mem_orderedInsert _

lemma insertChild_sorted (h : children.Pairwise (· < ·)) :
    (insertChild key children).Pairwise (· < ·) := by
  unfold insertChild
  split
  · exact h
  · rename_i hnot
    have hsorted := List.Pairwise.orderedInsert key children (h.imp le_of_lt)
    have hnodup := (List.perm_orderedInsert (· ≤ ·) key children).nodup_iff.2
      (List.nodup_cons.2 ⟨hnot, h.imp ne_of_lt⟩)
    exact (hsorted.and hnodup).imp fun h => lt_of_le_of_ne h.1 h.2

def leafInfo (key p : SlotHashKey) (ip : ForkInfo) : ForkInfo where
  stakeVotedAt := 0
  stakeVotedSubtree := 0
  height := 1
  bestSlot := key
  deepestSlot := key
  parent := some p
  children := []
  latestInvalidAncestor := ip.latestInvalidAncestor
  isDuplicateConfirmed := false

/-- The two states differ in weights of subtrees, heights, best and deepest slots only. -/
structure OnlyDerived (fc fc' : HeaviestSubtreeForkChoice) : Prop extends SameForks fc fc' where
  latestVotes_eq : fc'.latestVotes = fc.latestVotes
  stakeVotedAt_eq : ∀ n i, fc.info n = some i → ∀ i', fc'.info n = some i' →
    i'.stakeVotedAt = i.stakeVotedAt

/-- `fc'` is `fc` with the leaf `key` linked below `p`, before anything is propagated. -/
structure Linked (fc : HeaviestSubtreeForkChoice) (key p : SlotHashKey) (ip : ForkInfo)
    (fc' : HeaviestSubtreeForkChoice) : Prop where
  fresh : fc.info key = none
  parent_info : fc.info p = some ip
  slot_lt : p.slot < key.slot
  treeRoot_eq : fc'.treeRoot = fc.treeRoot
  latestVotes_eq : fc'.latestVotes = fc.latestVotes
  info_key : fc'.info key = some (leafInfo key p ip)
  info_parent : fc'.info p = some { ip with children := insertChild key ip.children }
  info_other : ∀ n, n ≠ key → n ≠ p → fc'.info n = fc.info n

namespace Linked

variable (h : Linked fc key p ip fc')

include h

lemma info_some (hi : fc.info n = some i) :
    fc'.info n = some { i with children := if n = p then insertChild key i.children else i.children } := by
  by_cases hn : n = p
  · subst hn
    obtain rfl := mem_unique hi h.parent_info
    simp [h.info_parent]
  · have hkey : n ≠ key := by
      rintro rfl
      simp [h.fresh] at hi
    simp [h.info_other n hkey hn, hi, hn]

lemma info_cases (hi' : fc'.info n = some i') :
    (n = key ∧ i' = leafInfo key p ip) ∨ ∃ i, fc.info n = some i ∧
      i' = { i with children := if n = p then insertChild key i.children else i.children } := by
  by_cases hn : n = key
  · subst hn
    exact .inl ⟨rfl, mem_unique hi' h.info_key⟩
  refine .inr ?_
  by_cases hnp : n = p
  · subst hnp
    obtain rfl := mem_unique h.info_parent hi'
    exact ⟨ip, h.parent_info, by simp⟩
  · rw [h.info_other n hn hnp] at hi'
    exact ⟨i', hi', by simp [hnp]⟩

lemma info_of_none (hn : n ≠ key) (hi : fc.info n = none) : fc'.info n = fc.info n := by
  refine h.info_other n hn ?_
  rintro rfl
  simp [h.parent_info] at hi

lemma sameBest (hc : c ≠ key) : SameBest fc fc' c := by
  cases hi : fc.info c with
  | none => exact sameBest_of_info (h.info_of_none hc hi).symm
  | some i =>
    have hi' := h.info_some hi
    exact ⟨(weight_of_info hi).trans (weight_of_info hi').symm,
      (candidate_of_info hi).trans (candidate_of_info hi').symm,
      (bestOf_of_info hi).trans (bestOf_of_info hi').symm⟩

lemma sameDeepest (hc : c ≠ key) : SameDeepest fc fc' c := by
  cases hi : fc.info c with
  | none => exact sameDeepest_of_info (h.info_of_none hc hi).symm
  | some i =>
    have hi' := h.info_some hi
    exact ⟨(weight_of_info hi).trans (weight_of_info hi').symm,
      (heightOf_of_info hi).trans (heightOf_of_info hi').symm,
      (deepestOf_of_info hi).trans (deepestOf_of_info hi').symm⟩

lemma child_ne (wf : WellFormed fc) (hi : fc.info n = some i) (hc : c ∈ i.children) : c ≠ key := by
  rintro rfl
  obtain ⟨ic, hic, -⟩ := wf.child_mem n i c hi hc
  simp [h.fresh] at hic

lemma parent_eq (hn : n ≠ key) : fc'.parent n = fc.parent n := by
  cases hi : fc.info n with
  | none => simp [parent, h.info_of_none hn hi]
  | some i => simp [parent, hi, h.info_some hi]

lemma parent_key : fc'.parent key = some p := by
  simp [parent, h.info_key, leafInfo]

lemma wellFormed (wf : WellFormed fc) : WellFormed fc' := by
  refine ⟨?_, ?_, ?_, ?_⟩
  · obtain ⟨i, hi, hp⟩ := wf.root_mem
    rw [h.treeRoot_eq]
    exact ⟨_, h.info_some hi, hp⟩
  · intro n i' hi' hne
    rcases h.info_cases hi' with ⟨rfl, rfl⟩ | ⟨i, hi, rfl⟩
    · exact ⟨p, _, rfl, h.info_parent, mem_insertChild.2 (.inl rfl)⟩
    · obtain ⟨q, iq, hq, hiq, hmem⟩ := wf.parent_mem n i hi (h.treeRoot_eq ▸ hne)
      refine ⟨q, _, hq, h.info_some hiq, ?_⟩
      dsimp only
      split
      · exact mem_insertChild.2 (.inr hmem)
      · exact hmem
  · intro n i' c hi' hc
    rcases h.info_cases hi' with ⟨rfl, rfl⟩ | ⟨i, hi, rfl⟩
    · simp [leafInfo] at hc
    · have hcases : (c = key ∧ n = p) ∨ c ∈ i.children := by
        dsimp only at hc
        split at hc
        · rename_i hnp
          exact (mem_insertChild.1 hc).imp_left fun hck => ⟨hck, hnp⟩
        · exact .inr hc
      rcases hcases with ⟨rfl, rfl⟩ | hc
      · exact ⟨_, h.info_key, rfl, h.slot_lt⟩
      · obtain ⟨ic, hic, hparent, hlt⟩ := wf.child_mem n i c hi hc
        exact ⟨_, h.info_some hic, hparent, hlt⟩
  · intro n i' hi'
    rcases h.info_cases hi' with ⟨rfl, rfl⟩ | ⟨i, hi, rfl⟩
    · simp [leafInfo]
    · dsimp only
      split
      · exact insertChild_sorted (wf.children_sorted n i hi)
      · exact wf.children_sorted n i hi

lemma up {a : SlotHashKey} (hup : Up fc n a) : Up fc' n a := by
  induction hup with
  | refl => exact Up.refl fc' n
  | @tail b c _ hstep ih =>
    have hb : b ≠ key := by
      rintro rfl
      simp [parent, h.fresh] at hstep
    exact ih.trans (Up.of_parent ((h.parent_eq hb).trans hstep))

lemma marksConsistent (wf : WellFormed fc) (hmarks : MarksConsistent fc) : MarksConsistent fc' := by
  -- the leaf has the mark of its parent, all other nodes have their own
  refine ⟨?_, ?_, ?_, ?_⟩
  · intro n i' q iq' hi' hq hiq' hconf
    rcases h.info_cases hi' with ⟨rfl, rfl⟩ | ⟨i, hi, rfl⟩
    · simp [leafInfo] at hconf
    · obtain ⟨iq, hiq, -⟩ := wf.parent_iff.1 (parent_eq_some.2 ⟨i, hi, hq⟩)
      obtain rfl := mem_unique (h.info_some hiq) hiq'
      exact hmarks.confirmed_up n i q iq hi hq hiq hconf
  · intro n i' hi' hconf
    rcases h.info_cases hi' with ⟨rfl, rfl⟩ | ⟨i, hi, rfl⟩
    · simp [leafInfo] at hconf
    · exact hmarks.confirmed_valid n i hi hconf
  · intro n i' s hi' hs
    rcases h.info_cases hi' with ⟨rfl, rfl⟩ | ⟨i, hi, rfl⟩
    · exact (hmarks.mark_le p ip s h.parent_info hs).trans (le_of_lt h.slot_lt)
    · exact hmarks.mark_le n i s hi hs
  · intro n i' q iq' s hi' hq hiq' hs
    rcases h.info_cases hi' with ⟨rfl, rfl⟩ | ⟨i, hi, rfl⟩
    · obtain rfl : p = q := by simpa [leafInfo] using hq
      obtain rfl := mem_unique h.info_parent hiq'
      exact ⟨s, hs, le_refl s⟩
    · obtain ⟨iq, hiq, -⟩ := wf.parent_iff.1 (parent_eq_some.2 ⟨i, hi, hq⟩)
      obtain rfl := mem_unique (h.info_some hiq) hiq'
      exact hmarks.mark_down n i q iq s hi hq hiq hs

lemma upToDate_of_ne (hsound : Sound fc) (hi' : fc'.info n = some i')
    (hn : n ≠ p) : UpToDateAt fc' n i' := by
  rcases h.info_cases hi' with ⟨rfl, rfl⟩ | ⟨i, hi, rfl⟩
  · exact ⟨by simp [leafInfo], .inl ⟨rfl, rfl, rfl⟩, fun _ => .inl ⟨rfl, rfl⟩, Up.refl fc' n⟩
  · have hold := hsound.upToDate n i hi
    have hchild : ∀ c ∈ i.children, c ≠ key := fun c hc => h.child_ne hsound.wf hi hc
    rw [if_neg hn]
    refine ⟨?_, ?_, ?_, h.up hold.best_up⟩
    · rw [← map_weight_congr (fun c hc => (h.sameBest (hchild c hc)).weight_eq)]
      exact hold.weight_eq
    · exact hold.deepest.congr fun c hc => h.sameDeepest (hchild c hc)
    · intro hcand
      exact (hold.best hcand).congr fun c hc => h.sameBest (hchild c hc)

lemma weight_parent (hsound : Sound fc) :
    ip.stakeVotedSubtree = ip.stakeVotedAt + ((insertChild key ip.children).map (weight fc')).sum := by
  have hnot : key ∉ ip.children := fun hmem => h.child_ne hsound.wf h.parent_info hmem rfl
  have hperm : insertChild key ip.children ~ key :: ip.children := by
    unfold insertChild
    rw [if_neg hnot]
    exact List.perm_orderedInsert _ _ _
  rw [(hperm.map (weight fc')).sum_eq, List.map_cons, List.sum_cons, weight_of_info h.info_key,
    ← map_weight_congr (fun c hc => (h.sameBest (h.child_ne hsound.wf h.parent_info hc)).weight_eq)]
  simpa [leafInfo] using (hsound.upToDate p ip h.parent_info).weight_eq

lemma candidate_key : candidate fc' key = candidate fc' p := by
  rw [candidate_of_info h.info_key, candidate_of_info h.info_parent]
  rfl

lemma mem_filter_candidate (wf : WellFormed fc)
    (hcand : candidate fc' key = true) (c : SlotHashKey) :
    c ∈ (insertChild key ip.children).filter (candidate fc') ↔
      c = key ∨ c ∈ ip.children.filter (candidate fc) := by
  rw [List.mem_filter, mem_insertChild, List.mem_filter]
  constructor
  · rintro ⟨rfl | hc, hcc⟩
    · exact .inl rfl
    · exact .inr ⟨hc, (h.sameBest (h.child_ne wf h.parent_info hc)).candidate_eq ▸ hcc⟩
  · rintro (rfl | ⟨hc, hcc⟩)
    · exact ⟨.inl rfl, hcand⟩
    · exact ⟨.inr hc, (h.sameBest (h.child_ne wf h.parent_info hc)).candidate_eq ▸ hcc⟩

section

variable (hsound : Sound fc)

include hsound

lemma best_parent_of_not (hnot : ¬ ∀ c ∈ insertChild key ip.children, candidate fc' c = true →
      bestScore fc' c ≤ bestScore fc' key) (hcand : ip.isCandidate = true) :
    BestUpToDate fc' p (insertChild key ip.children) ip.bestSlot := by
  have hkey : candidate fc' key = true := by
    rw [h.candidate_key, candidate_of_info h.info_parent]
    exact hcand
  have hmem := h.mem_filter_candidate hsound.wf hkey
  have hchamp : ¬ IsChampion (bestScore fc') ((insertChild key ip.children).filter (candidate fc')) key := by
    rintro ⟨-, hall⟩
    exact hnot fun c hc hcc => hall c (List.mem_filter.2 ⟨hc, hcc⟩)
  rcases (hsound.upToDate p ip h.parent_info).best hcand with ⟨hnil, -⟩ | ⟨x, hx, hbest⟩
  · refine absurd ⟨(hmem key).2 (.inl rfl), ?_⟩ hchamp
    intro c hc
    rcases (hmem c).1 hc with rfl | hc
    · exact le_refl _
    · simp [hnil] at hc
  · have hsame : ∀ c ∈ ip.children.filter (candidate fc), SameBest fc fc' c := fun c hc =>
      h.sameBest (h.child_ne hsound.wf h.parent_info (List.mem_of_mem_filter hc))
    have hx' : IsChampion (bestScore fc') (ip.children.filter (candidate fc)) x :=
      hx.congr fun c hc => by simp [bestScore, (hsame c hc).weight_eq]
    exact .inr ⟨x, hx'.of_inserted hmem hchamp, hbest.trans (hsame x hx.1).bestOf_eq⟩

lemma best_up (hi' : fc'.info n = some i') : Up fc' (bestOf fc' n) n := by
  by_cases hn : n = p
  · subst hn
    rw [bestOf_of_info h.info_parent]
    exact h.up (hsound.upToDate n ip h.parent_info).best_up
  · rw [bestOf_of_info hi']
    exact (h.upToDate_of_ne hsound hi' hn).best_up

/-- If the leaf is the best child, patching the path upwards keeps every best slot in line
with the best child: a node on the path is patched exactly if its best child is. -/
lemma best_of_propagated
    (hbest : ∀ c ∈ insertChild key ip.children, candidate fc' c = true → bestScore fc' c ≤ bestScore fc' key)
    {updated : SlotHashKey → Prop} (hp : BestPropagated fc' key ip.bestSlot p updated fc₁)
    (hi' : fc'.info n = some i') (hcand : i'.isCandidate = true) :
    BestUpToDate fc₁ n i'.children (bestOf fc₁ n) := by
  have wf' := h.wellFormed hsound.wf
  have hacc := hp.onlyBest.accessors
  have hscore : ∀ c, bestScore fc' c = bestScore fc₁ c := fun c => by simp [bestScore, (hacc c).1]
  have hfilter : i'.children.filter (candidate fc₁) = i'.children.filter (candidate fc') :=
    List.filter_congr fun c _ => (hacc c).2.1.symm
  have hbestp : bestOf fc' p = ip.bestSlot := by rw [bestOf_of_info h.info_parent]
  have hkey : ¬ updated key := by
    intro hupd
    exact absurd (wf'.slot_le_of_up (hp.of_updated key hupd).1) (Nat.not_le.2 h.slot_lt)
  rw [BestUpToDate, hfilter]
  by_cases hn : n = p
  · subst hn
    obtain rfl := mem_unique h.info_parent hi'
    have hcandKey : candidate fc' key = true := by
      rw [h.candidate_key, candidate_of_info h.info_parent]
      exact hcand
    refine .inr ⟨key, ⟨List.mem_filter.2 ⟨mem_insertChild.2 (.inl rfl), hcandKey⟩, ?_⟩, ?_⟩
    · intro c hc
      rw [← hscore c, ← hscore key]
      exact hbest c (List.mem_of_mem_filter hc) (List.mem_filter.1 hc).2
    · rw [(hp.of_updated n (hp.start_iff.2 hbestp)).2.2, hp.of_not_updated key hkey,
        bestOf_of_info h.info_key]
      rfl
  · have hold := (h.upToDate_of_ne hsound hi' hn).best hcand
    rw [← bestOf_of_info hi'] at hold
    rcases hold with ⟨hnil, hself⟩ | ⟨c, hc, heq⟩
    · refine .inl ⟨hnil, ?_⟩
      have hnot : ¬ updated n := by
        intro hupd
        obtain ⟨hup, hshared, -⟩ := hp.of_updated n hupd
        have hdown : Up fc' (bestOf fc' p) p := h.best_up hsound h.info_parent
        rw [hbestp, ← hshared, hself] at hdown
        exact hn (wf'.up_antisymm hdown hup)
      rw [hp.of_not_updated n hnot, hself]
    · have hchild : fc'.parent c = some n :=
        wf'.parent_iff.2 ⟨i', hi', List.mem_of_mem_filter hc.1⟩
      refine .inr ⟨c, hc.congr (fun y _ => hscore y), ?_⟩
      by_cases hupd : updated n
      · obtain ⟨hup, hshared, hnew⟩ := hp.of_updated n hupd
        rcases hup.cases_child with heqp | ⟨m, hpm, hm⟩
        · exact absurd heqp.symm hn
        · have hupm : updated m := ((hp.parent_iff m n hpm hm).1 hupd).1
          obtain ⟨ic, hic, -⟩ := wf'.child_mem n i' c hi' (List.mem_of_mem_filter hc.1)
          have hbc : Up fc' ip.bestSlot c := by
            rw [← hshared, heq]
            exact h.best_up hsound hic
          have hbm : Up fc' ip.bestSlot m := by
            have hdown : Up fc' (bestOf fc' p) p := h.best_up hsound h.info_parent
            rw [hbestp] at hdown
            exact hdown.trans hpm
          obtain rfl := wf'.siblings_disjoint hchild hm hbc hbm
          rw [hnew, (hp.of_updated c hupm).2.2]
      · have hnotc : ¬ updated c := by
          intro hupc
          obtain ⟨hup, hshared, -⟩ := hp.of_updated c hupc
          exact hupd ((hp.parent_iff c n hup hchild).2 ⟨hupc, heq.trans hshared⟩)
        rw [hp.of_not_updated n hupd, hp.of_not_updated c hnotc, heq]

lemma deepestPending (hbest : OnlyBest fc' fc₁) : DeepestPending fc₁ key p key 1 := by
  have wf' := h.wellFormed hsound.wf
  have hacc : ∀ c, SameDeepest fc' fc₁ c := fun c =>
    ⟨(hbest.accessors c).1, (hbest.accessors c).2.2.1, (hbest.accessors c).2.2.2⟩
  have hsame : ∀ c ∈ ip.children, SameDeepest fc fc₁ c := fun c hc =>
    have hc' := h.sameDeepest (h.child_ne hsound.wf h.parent_info hc)
    ⟨hc'.weight_eq.trans (hacc c).weight_eq, hc'.heightOf_eq.trans (hacc c).heightOf_eq,
      hc'.deepestOf_eq.trans (hacc c).deepestOf_eq⟩
  have hheight : heightOf fc₁ key = 1 := by
    rw [← (hacc key).heightOf_eq, heightOf_of_info h.info_key]
    rfl
  have hold := (hsound.upToDate p ip h.parent_info).deepest
  have hinfo : ∀ i, fc₁.info p = some i →
      i.children = insertChild key ip.children ∧ i.height = ip.height ∧ i.deepestSlot = ip.deepestSlot := by
    intro i hi
    obtain ⟨b, hb⟩ := hbest.info_some p _ h.info_parent
    obtain rfl := mem_unique hb hi
    exact ⟨rfl, rfl, rfl⟩
  refine ⟨hbest.sameTree.wellFormed wf', (hbest.sameTree.parent_eq key).trans h.parent_key, hheight, ?_,
    ?_, ?_, ?_⟩
  · rw [← (hacc key).deepestOf_eq, deepestOf_of_info h.info_key]
    rfl
  · intro n i₁ hi₁ hn
    obtain ⟨i', hi', -⟩ := hbest.sameTree.info_back hi₁
    obtain ⟨b, hb⟩ := hbest.info_some n i' hi'
    obtain rfl := mem_unique hb hi₁
    exact (h.upToDate_of_ne hsound hi' hn).deepest.congr fun c _ => hacc c
  · intro i hi hchamp
    obtain ⟨hchildren, hh, -⟩ := hinfo i hi
    rw [hchildren] at hchamp
    rcases hold with ⟨-, hone, -⟩ | ⟨x, hx, hxh, -⟩
    · omega
    · have hle := heightOf_le_of_depthScore_le (hchamp.2 x (mem_insertChild.2 (.inr hx.1)))
      rw [hheight, ← (hsame x hx.1).heightOf_eq] at hle
      omega
  · intro i hi hnot
    obtain ⟨hchildren, hh, hd⟩ := hinfo i hi
    rw [hchildren] at hnot ⊢
    rw [hh, hd]
    rcases hold with ⟨hnil, -⟩ | ⟨x, hx, hxh, hxd⟩
    · refine absurd ⟨mem_insertChild.2 (.inl rfl), ?_⟩ hnot
      intro c hc
      rcases mem_insertChild.1 hc with rfl | hc
      · exact le_refl _
      · simp [hnil] at hc
    · have hx' := hx.congr fun c hc => (hsame c hc).depthScore_eq
      exact .inr ⟨x, hx'.of_inserted (fun c => mem_insertChild) hnot,
        by rw [hxh, (hsame x hx.1).heightOf_eq], hxd.trans (hsame x hx.1).deepestOf_eq⟩

lemma propagateNewLeaf_sound :
    ∃ fc₂, fc'.propagateNewLeaf key p = some fc₂ ∧ Sound fc₂ ∧ OnlyDerived fc' fc₂ := by
  have wf' := h.wellFormed hsound.wf
  obtain ⟨b, hb, hiff⟩ := isBestChild_spec wf' h.parent_key h.info_parent
  -- the first loop
  have hfirst : ∃ fc₁, (if b = true then propagateBest key ip.bestSlot key.slot fc' (some p)
        else some fc') = some fc₁ ∧ OnlyBest fc' fc₁ ∧
      ∀ n i', fc'.info n = some i' → Up fc' (bestOf fc₁ n) n ∧
        (i'.isCandidate = true → BestUpToDate fc₁ n i'.children (bestOf fc₁ n)) := by
    by_cases hbt : b = true
    · obtain ⟨fc₁, updated, heq, hp⟩ :=
        propagateBest_spec key ip.bestSlot key.slot wf' h.info_parent h.slot_lt
      refine ⟨fc₁, by rw [if_pos hbt, heq], hp.onlyBest, ?_⟩
      intro n i' hi'
      refine ⟨?_, h.best_of_propagated hsound (hiff.1 hbt) hp hi'⟩
      by_cases hupd : updated n
      · obtain ⟨hup, -, hnew⟩ := hp.of_updated n hupd
        rw [hnew]
        exact (Up.of_parent h.parent_key).trans hup
      · rw [hp.of_not_updated n hupd]
        exact h.best_up hsound hi'
    · refine ⟨fc', by rw [if_neg hbt], OnlyBest.refl fc', ?_⟩
      intro n i' hi'
      refine ⟨h.best_up hsound hi', ?_⟩
      intro hcand
      rw [bestOf_of_info hi']
      by_cases hn : n = p
      · subst hn
        obtain rfl := mem_unique h.info_parent hi'
        exact h.best_parent_of_not hsound (fun hall => hbt (hiff.2 hall)) hcand
      · exact (h.upToDate_of_ne hsound hi' hn).best hcand
  obtain ⟨fc₁, heq₁, honly₁, hbest₁⟩ := hfirst
  -- the second loop
  obtain ⟨fc₂, heq₂, honly₂, hdeepest₂⟩ :=
    propagateDeepest_spec key key.slot (h.deepestPending hsound honly₁) h.slot_lt
  have hinfo : ∀ n i', fc'.info n = some i' → ∃ d k,
      fc₂.info n = some { i' with bestSlot := bestOf fc₁ n, deepestSlot := d, height := k } := by
    intro n i' hi'
    obtain ⟨b₁, hb₁⟩ := honly₁.info_some n i' hi'
    obtain ⟨d₂, k₂, hb₂⟩ := honly₂.info_some n _ hb₁
    refine ⟨d₂, k₂, ?_⟩
    rw [bestOf_of_info hb₁]
    exact hb₂
  have htree : SameTree fc' fc₂ := by
    refine ⟨honly₂.treeRoot_eq.trans honly₁.treeRoot_eq,
      fun n hn => honly₂.info_none n (honly₁.info_none n hn), ?_⟩
    intro n i' hi'
    obtain ⟨d, k, hi₂⟩ := hinfo n i' hi'
    exact ⟨_, hi₂, rfl, rfl⟩
  have hforks : SameForks fc' fc₂ := by
    refine ⟨htree, ?_⟩
    intro n i' hi' i₂ hi₂
    obtain ⟨d, k, hi₂'⟩ := hinfo n i' hi'
    obtain rfl := mem_unique hi₂' hi₂
    exact ⟨rfl, rfl⟩
  have hweights : ∀ c, weight fc' c = weight fc₂ c := fun c =>
    (honly₁.accessors c).1.trans (honly₂.sameBest c).weight_eq
  refine ⟨fc₂, ?_, ⟨htree.wellFormed wf', ?_, hforks.marksConsistent (h.marksConsistent hsound.wf hsound.marks)⟩,
    ⟨hforks, honly₂.latestVotes_eq.trans honly₁.latestVotes_eq, ?_⟩⟩
  · have hparentBest : fc'.bestSlot p = some ip.bestSlot := by simp [bestSlot, h.info_parent]
    by_cases hbt : b = true
    · rw [if_pos hbt] at heq₁
      simp [propagateNewLeaf, hparentBest, hb, hbt, heq₁, heq₂]
    · rw [if_neg hbt] at heq₁
      cases heq₁
      simp [propagateNewLeaf, hparentBest, hb, hbt, heq₂]
  · intro n i₂ hi₂
    obtain ⟨i', hi', -⟩ := htree.info_back hi₂
    obtain ⟨d, k, hi₂'⟩ := hinfo n i' hi'
    obtain rfl := mem_unique hi₂' hi₂
    obtain ⟨hup, hbest⟩ := hbest₁ n i' hi'
    refine ⟨?_, hdeepest₂ n _ hi₂, ?_, ?_⟩
    · dsimp only
      rw [← map_weight_congr (fun c _ => hweights c)]
      by_cases hn : n = p
      · subst hn
        obtain rfl := mem_unique h.info_parent hi'
        exact h.weight_parent hsound
      · exact (h.upToDate_of_ne hsound hi' hn).weight_eq
    · intro hcand
      exact (hbest hcand).congr fun c _ => honly₂.sameBest c
    · rw [htree.up_eq]
      exact hup
  · intro n i' hi' i₂ hi₂
    obtain ⟨d, k, hi₂'⟩ := hinfo n i' hi'
    obtain rfl := mem_unique hi₂' hi₂
    rfl

end

end Linked

lemma OnlyDerived.votesCounted (h : OnlyDerived fc fc') (hcounted : VotesCounted env fc) :
    VotesCounted env fc' := by
  intro n i' hi'
  obtain ⟨i, hi, -⟩ := h.info_back hi'
  rw [h.stakeVotedAt_eq n i hi i' hi', h.latestVotes_eq]
  exact hcounted n i hi

lemma votedStake_eq_zero {votes : Std.TreeMap Pubkey SlotHashKey}
    (h : ∀ pubkey : Pubkey, votes[pubkey]? ≠ some n) : votedStake env votes n = 0 := by
  unfold votedStake
  rw [Finset.filter_false_of_mem (fun pubkey _ => h pubkey), Finset.sum_empty]

lemma Linked.votesCounted (h : Linked fc key p ip fc') (hcounted : VotesCounted env fc)
    (hunvoted : ∀ pubkey : Pubkey, fc.latestVotes[pubkey]? ≠ some key) : VotesCounted env fc' := by
  intro n i' hi'
  rw [h.latestVotes_eq]
  rcases h.info_cases hi' with ⟨rfl, rfl⟩ | ⟨i, hi, rfl⟩
  · exact (votedStake_eq_zero hunvoted).symm
  · exact hcounted n i hi

lemma addNewLeafSlot_linked (hfresh : fc.info key = none) (hp : fc.info p = some ip)
    (hlt : p.slot < key.slot) :
    ∃ fc₁, Linked fc key p ip fc₁ ∧ fc.addNewLeafSlot key (some p) = fc₁.propagateNewLeaf key p := by
  have hpk : p ≠ key := by
    rintro rfl
    simp [hfresh] at hp
  have hkp : fc.latestInvalidAncestor p = ip.latestInvalidAncestor := by
    simp [latestInvalidAncestor, hp]
  have hinfo : (fc.setInfo key (leafInfo key p ip)).info p = some ip := by
    rw [info_setInfo_of_ne _ _ _ _ hpk.symm, hp]
  refine ⟨(fc.setInfo key (leafInfo key p ip)).setInfo p
    { ip with children := insertChild key ip.children }, ?_, ?_⟩
  · refine ⟨hfresh, hp, hlt, rfl, rfl, ?_, info_setInfo_self _ _ _, ?_⟩
    · rw [info_setInfo_of_ne _ _ _ _ hpk, info_setInfo_self]
    · intro n hnk hnp
      rw [info_setInfo_of_ne _ _ _ _ hnp.symm, info_setInfo_of_ne _ _ _ _ hnk.symm]
  · have hnew : fc.containsBlock key = false := by simp [containsBlock, hfresh]
    have hleaf : fc.addNewLeafSlot key (some p) = (do
        let i ← (fc.setInfo key (leafInfo key p ip)).info p
        ((fc.setInfo key (leafInfo key p ip)).setInfo p
          { i with children := insertChild key i.children }).propagateNewLeaf key p) := by
      simp [addNewLeafSlot, hnew, hkp, leafInfo]
    rw [hleaf, hinfo]
    rfl

/-- Adding a leaf below a node of the tree succeeds and restores the invariant. -/
theorem addNewLeafSlot_sound (hsound : Sound fc) (hfresh : fc.info key = none)
    (hp : fc.info p = some ip) (hlt : p.slot < key.slot) :
    ∃ fc₁ fc', Linked fc key p ip fc₁ ∧ fc.addNewLeafSlot key (some p) = some fc' ∧ Sound fc' ∧
      OnlyDerived fc₁ fc' := by
  obtain ⟨fc₁, hlinked, heq⟩ := addNewLeafSlot_linked hfresh hp hlt
  obtain ⟨fc', hfc', hsound', hderived⟩ := hlinked.propagateNewLeaf_sound hsound
  exact ⟨fc₁, fc', hlinked, heq.trans hfc', hsound', hderived⟩

lemma addNewLeafSlot_of_mem (hi : fc.info key = some i) (parent : Option SlotHashKey) :
    fc.addNewLeafSlot key parent = some fc := by
  simp [addNewLeafSlot, containsBlock, hi]

end Nuah.Proofs
