import Nuah.Lib.OrderedMaps
import Nuah.Proofs.NewLeaf

/-!
# Cutting the tree

`set_tree_root` and `split_off` cut the tree at a node. The part below the cut is up to date
as it is; above the cut the ancestors are aggregated again.
-/

namespace Nuah.Proofs
open List hiding removeAll
open HeaviestSubtreeForkChoice Champion UpdateOperations Option
open Std (TreeMap)

variable {c : SlotHashKey} {forkInfos : TreeMap SlotHashKey ForkInfo}
  {votes : TreeMap Pubkey SlotHashKey}

variable {n a : SlotHashKey} {i' i : ForkInfo} {l : List SlotHashKey} {env : VoteStakes}

variable {p key : SlotHashKey} {fc fc' : HeaviestSubtreeForkChoice}
  {ops : SlotHashKey → KeyOperations}

/-- `fc'` is the subtree of `fc` at `r`, whose root has no parent any more. -/
structure Subtree (fc : HeaviestSubtreeForkChoice) (r : SlotHashKey)
    (fc' : HeaviestSubtreeForkChoice) : Prop where
  root_info : fc.info r ≠ none
  treeRoot_eq : fc'.treeRoot = r
  info_root : ∀ i, fc.info r = some i → fc'.info r = some { i with parent := none }
  info_below : ∀ n, n ≠ r → Up fc n r → fc'.info n = fc.info n
  info_outside : ∀ n, ¬ Up fc n r → fc'.info n = none

namespace Subtree
variable {r : SlotHashKey}

section

variable (h : Subtree fc r fc')

include h

section

variable (hi' : fc'.info n = some i')

include hi'

lemma up_of_info : Up fc n r := by
  by_contra hnot
  simp [h.info_outside n hnot] at hi'

lemma info_back :
    ∃ i, fc.info n = some i ∧ i' = { i with parent := if n = r then none else i.parent } := by
  by_cases hn : n = r
  · subst hn
    obtain ⟨i, hi⟩ := ne_none_iff_exists'.1 h.root_info
    obtain rfl := mem_unique (h.info_root i hi) hi'
    exact ⟨i, hi, by simp⟩
  · rw [h.info_below n hn (h.up_of_info hi')] at hi'
    exact ⟨i', hi', by simp [hn]⟩

end

lemma child_below (wf : WellFormed fc) (hi : fc.info n = some i)
    (hn : Up fc n r) (hc : c ∈ i.children) :
    c ≠ r ∧ Up fc c r ∧ fc'.info c = fc.info c := by
  have hparent : fc.parent c = some n := wf.parent_iff.2 ⟨i, hi, hc⟩
  have hup : Up fc c r := (Up.of_parent hparent).trans hn
  have hne : c ≠ r := by
    rintro rfl
    exact wf.not_up_of_parent hparent hn
  exact ⟨hne, hup, h.info_below c hne hup⟩

lemma up (wf : WellFormed fc) (hna : Up fc n a) (ha : Up fc a r) : Up fc' n a := by
  induction hna using Relation.ReflTransGen.head_induction_on with
  | refl => exact Up.refl fc' a
  | @head b c hstep hca ih =>
    have hcr : Up fc c r := Up.trans hca ha
    obtain ⟨ip, hip, hmem⟩ := wf.parent_iff.1 hstep
    obtain ⟨hne, hbr, hinfo⟩ := h.child_below wf hip hcr hmem
    refine Up.trans (Up.of_parent ?_) ih
    simpa [parent, hinfo] using hstep

lemma wellFormed (wf : WellFormed fc) : WellFormed fc' := by
  refine ⟨?_, ?_, ?_, ?_⟩
  · obtain ⟨i, hi⟩ := ne_none_iff_exists'.1 h.root_info
    rw [h.treeRoot_eq]
    exact ⟨_, h.info_root i hi, rfl⟩
  · intro n i' hi' hne
    rw [h.treeRoot_eq] at hne
    have hup := h.up_of_info hi'
    rw [h.info_below n hne hup] at hi'
    rcases hup.cases_head with rfl | ⟨p, hp, hpr⟩
    · exact absurd rfl hne
    · obtain ⟨i, hi, hparent⟩ := parent_eq_some.1 hp
      obtain rfl := mem_unique hi hi'
      obtain ⟨ip, hip, hmem⟩ := wf.parent_iff.1 hp
      by_cases hpr' : p = r
      · subst hpr'
        exact ⟨p, _, hparent, h.info_root ip hip, hmem⟩
      · exact ⟨p, ip, hparent, (h.info_below p hpr' hpr).trans hip, hmem⟩
  · intro n i' c hi' hc
    have hup := h.up_of_info hi'
    obtain ⟨i, hi, rfl⟩ := h.info_back hi'
    obtain ⟨ic, hic, hparent, hlt⟩ := wf.child_mem n i c hi hc
    exact ⟨ic, (h.child_below wf hi hup hc).2.2.trans hic, hparent, hlt⟩
  · intro n i' hi'
    obtain ⟨i, hi, rfl⟩ := h.info_back hi'
    exact wf.children_sorted n i hi

lemma upToDate (hsound : Sound fc) : ∀ n i', fc'.info n = some i' → UpToDateAt fc' n i' := by
  intro n i' hi'
  have hup := h.up_of_info hi'
  obtain ⟨i, hi, rfl⟩ := h.info_back hi'
  have hold := hsound.upToDate n i hi
  have hchild : ∀ c ∈ i.children, fc.info c = fc'.info c := fun c hc =>
    (h.child_below hsound.wf hi hup hc).2.2.symm
  refine ⟨?_, hold.deepest.congr (fun c hc => sameDeepest_of_info (hchild c hc)),
    fun hcand => (hold.best hcand).congr (fun c hc => sameBest_of_info (hchild c hc)),
    h.up hsound.wf hold.best_up hup⟩
  rw [← map_weight_congr (fun c hc => (sameBest_of_info (hchild c hc)).weight_eq)]
  exact hold.weight_eq

lemma marksConsistent (hmarks : MarksConsistent fc) : MarksConsistent fc' := by
  refine hmarks.of_back fun n i' hi' => ?_
  obtain ⟨i, hi, rfl⟩ := h.info_back hi'
  refine ⟨i, hi, ?_, rfl, rfl⟩
  by_cases hn : n = r <;> simp [hn]

theorem sound (hsound : Sound fc) : Sound fc' :=
  ⟨h.wellFormed hsound.wf, h.upToDate hsound, h.marksConsistent hsound.marks⟩

end

end Subtree

lemma removeAll_spec (hnodup : l.Nodup) (hmem : ∀ n ∈ l, forkInfos[n]? ≠ none) :
    ∃ rest, removeAll forkInfos l = some rest ∧
      ∀ n : SlotHashKey, rest[n]? = if n ∈ l then none else forkInfos[n]? := by
  induction l generalizing forkInfos with
  | nil => exact ⟨forkInfos, rfl, by simp⟩
  | cons key l ih =>
    obtain ⟨hkey, hnodup⟩ := nodup_cons.1 hnodup
    have hmem' : ∀ n ∈ l, (forkInfos.erase key)[n]? ≠ none := by
      intro n hn
      have hne : n ≠ key := fun heq => hkey (heq ▸ hn)
      rw [OrderedMaps.getElem?_erase_eq, if_neg hne]
      exact hmem n (mem_cons_of_mem _ hn)
    obtain ⟨rest, hrest, hspec⟩ := ih hnodup hmem'
    refine ⟨rest, ?_, ?_⟩
    · have hin : key ∈ forkInfos := by
        rw [TreeMap.mem_iff_isSome_getElem?]
        exact isSome_iff_ne_none.2 (hmem key mem_cons_self)
      rw [removeAll, if_pos hin, hrest]
    · intro n
      rw [hspec n, OrderedMaps.getElem?_erase_eq]
      by_cases hn : n = key <;> simp [hn]

lemma mem_of_up_mem (h : Up fc n a) (ha : fc.info a ≠ none) : fc.info n ≠ none := by
  rcases h.cases_head with rfl | ⟨p, hp, -⟩
  · exact ha
  · obtain ⟨i, hi, -⟩ := parent_eq_some.1 hp
    simp [hi]

/-- A node of the tree can become its root. -/
theorem setTreeRoot_spec {newRoot : SlotHashKey} (wf : WellFormed fc)
    (hroot : fc.info newRoot ≠ none) :
    ∃ fc', fc.setTreeRoot newRoot = some fc' ∧ Subtree fc newRoot fc' ∧
      fc'.latestVotes = fc.latestVotes := by
  obtain ⟨i, hi⟩ := ne_none_iff_exists'.1 hroot
  obtain ⟨iroot, hiroot, -⟩ := wf.root_mem
  obtain ⟨l, hl, hnodup, hmem⟩ := wf.reachable_all (some newRoot) hiroot
  have hremoved : ∀ n, n ∈ l ↔ fc.info n ≠ none ∧ ¬ Up fc n newRoot := by
    intro n
    rw [hmem n]
    constructor
    · rintro ⟨hup, hskip⟩
      exact ⟨mem_of_up_mem hup (by simp [hiroot]), fun hn => hskip newRoot rfl ⟨hn, wf.up_root hi⟩⟩
    · rintro ⟨hn, hout⟩
      obtain ⟨j, hj⟩ := ne_none_iff_exists'.1 hn
      refine ⟨wf.up_root hj, ?_⟩
      rintro r hr ⟨hnr, -⟩
      exact hout (Option.some.inj hr ▸ hnr)
  obtain ⟨rest, hrest, hspec⟩ := removeAll_spec hnodup fun n hn => ((hremoved n).1 hn).1
  have hkept : rest[newRoot]? = some i := by
    rw [hspec, if_neg (fun hin => ((hremoved newRoot).1 hin).2 (Up.refl fc newRoot))]
    exact hi
  refine ⟨{ fc with forkInfos := rest.insert newRoot { i with parent := none }, treeRoot := newRoot },
    ?_, ⟨hroot, rfl, ?_, ?_, ?_⟩, rfl⟩
  · have hcontains : fc.containsBlock fc.treeRoot = true := by simp [containsBlock, hiroot]
    simp [setTreeRoot, subtreeDiff, hcontains, hl, hrest, hkept]
  · intro j hj
    obtain rfl := mem_unique hj hi
    simp [info]
  · intro n hn hup
    have hout : n ∉ l := fun hin => ((hremoved n).1 hin).2 hup
    simp [info, TreeMap.getElem?_insert, hn.symm, hspec, hout]
  · intro n hout
    have hne : newRoot ≠ n := by
      rintro rfl
      exact hout (Up.refl fc newRoot)
    have hcases : n ∈ l ∨ fc.forkInfos[n]? = none := by
      by_contra hcon
      obtain ⟨hl', hsome⟩ := not_or.1 hcon
      exact hl' ((hremoved n).2 ⟨hsome, hout⟩)
    simp only [info, TreeMap.getElem?_insert, compare_eq_iff_eq, hne, if_false, hspec]
    rcases hcases with hin | hnone
    · rw [if_pos hin]
    · rw [hnone, ite_self]

/-- `w` is `fc` without the subtree at `key`, before the ancestors are aggregated again. -/
structure Severed (fc : HeaviestSubtreeForkChoice) (key p : SlotHashKey)
    (w : HeaviestSubtreeForkChoice) : Prop where
  parent_key : fc.parent key = some p
  treeRoot_eq : w.treeRoot = fc.treeRoot
  info_below : ∀ n, Up fc n key → w.info n = none
  info_parent : ∀ ip, fc.info p = some ip →
    w.info p = some { ip with children := ip.children.erase key }
  info_other : ∀ n, ¬ Up fc n key → n ≠ p → w.info n = fc.info n

namespace Severed
variable {w : HeaviestSubtreeForkChoice}

lemma info_some (h : Severed fc key p w) (wf : WellFormed fc) (hi : fc.info n = some i)
    (hn : ¬ Up fc n key) :
    w.info n = some { i with children := i.children.erase key } := by
  by_cases hnp : n = p
  · subst hnp
    exact h.info_parent i hi
  · have hnot : key ∉ i.children := by
      intro hmem
      have hparent := wf.parent_iff.2 ⟨i, hi, hmem⟩
      exact hnp (mem_unique hparent h.parent_key)
    rw [h.info_other n hn hnp, hi, erase_of_not_mem hnot]

lemma info_back (h : Severed fc key p w) (wf : WellFormed fc) (hi' : w.info n = some i') :
    ¬ Up fc n key ∧ ∃ i, fc.info n = some i ∧ i' = { i with children := i.children.erase key } := by
  have hn : ¬ Up fc n key := by
    intro hup
    simp [h.info_below n hup] at hi'
  have hin : fc.info n ≠ none := by
    by_cases hnp : n = p
    · obtain ⟨ip, hip, -⟩ := wf.parent_iff.1 h.parent_key
      simp [hnp, hip]
    · rw [← h.info_other n hn hnp]
      simp [hi']
  obtain ⟨i, hi⟩ := ne_none_iff_exists'.1 hin
  exact ⟨hn, i, hi, mem_unique hi' (h.info_some wf hi hn)⟩

lemma mem_children (wf : WellFormed fc) (hi : fc.info n = some i) (hn : ¬ Up fc n key)
    (hc : c ∈ i.children.erase key) : c ∈ i.children ∧ ¬ Up fc c key := by
  have hnodup : i.children.Nodup := (wf.children_sorted n i hi).imp fun hlt => ne_of_lt hlt
  obtain ⟨hne, hmem⟩ := hnodup.mem_erase_iff.1 hc
  refine ⟨hmem, ?_⟩
  intro hup
  rcases hup.cases_head with rfl | ⟨q, hq, hqk⟩
  · exact hne rfl
  · have hparent := wf.parent_iff.2 ⟨i, hi, hmem⟩
    exact hn (mem_unique hparent hq ▸ hqk)

section

variable (h : Severed fc key p w)

include h

lemma parent_eq (wf : WellFormed fc) (hn : ¬ Up fc n key) : w.parent n = fc.parent n := by
  cases hi : fc.info n with
  | none =>
    have hnp : n ≠ p := by
      rintro rfl
      obtain ⟨ip, hip, -⟩ := wf.parent_iff.1 h.parent_key
      simp [hi] at hip
    simp [parent, h.info_other n hn hnp, hi]
  | some i => simp [parent, h.info_some wf hi hn, hi]

lemma up (wf : WellFormed fc) (hna : Up fc n a) (hn : ¬ Up fc n key) : Up w n a := by
  induction hna using Relation.ReflTransGen.head_induction_on with
  | refl => exact Up.refl w a
  | @head b c hstep _ ih =>
    have hc : ¬ Up fc c key := fun hck => hn ((Up.of_parent hstep).trans hck)
    exact (Up.of_parent ((h.parent_eq wf hn).trans hstep)).trans (ih hc)

lemma wellFormed (wf : WellFormed fc) : WellFormed w := by
  refine ⟨?_, ?_, ?_, ?_⟩
  · obtain ⟨i, hi, hnone⟩ := wf.root_mem
    have hroot : ¬ Up fc fc.treeRoot key := by
      intro hup
      rcases hup.cases_head with heq | ⟨q, hq, -⟩
      · exact wf.ne_root_of_parent h.parent_key heq.symm
      · exact wf.ne_root_of_parent hq rfl
    rw [h.treeRoot_eq]
    exact ⟨_, h.info_some wf hi hroot, hnone⟩
  · intro n i' hi' hne
    rw [h.treeRoot_eq] at hne
    obtain ⟨hn, i, hi, rfl⟩ := h.info_back wf hi'
    obtain ⟨q, iq, hq, hiq, hmem⟩ := wf.parent_mem n i hi hne
    have hparent : fc.parent n = some q := parent_eq_some.2 ⟨i, hi, hq⟩
    have hqout : ¬ Up fc q key := fun hqk => hn ((Up.of_parent hparent).trans hqk)
    refine ⟨q, _, hq, h.info_some wf hiq hqout, ?_⟩
    have hnk : n ≠ key := fun heq => hn (heq ▸ Up.refl fc n)
    exact (mem_erase_of_ne hnk).2 hmem
  · intro n i' c hi' hc
    obtain ⟨hn, i, hi, rfl⟩ := h.info_back wf hi'
    obtain ⟨hmem, hcout⟩ := mem_children wf hi hn hc
    obtain ⟨ic, hic, hparent, hlt⟩ := wf.child_mem n i c hi hmem
    exact ⟨_, h.info_some wf hic hcout, hparent, hlt⟩
  · intro n i' hi'
    obtain ⟨-, i, hi, rfl⟩ := h.info_back wf hi'
    exact (wf.children_sorted n i hi).sublist erase_sublist

lemma upToDate (hsound : Sound fc) (hi' : w.info n = some i')
    (hnot : ¬ Up fc key n) : UpToDateAt w n i' := by
  have wf := hsound.wf
  obtain ⟨hn, i, hi, rfl⟩ := h.info_back wf hi'
  have hold := hsound.upToDate n i hi
  have hkey : key ∉ i.children := fun hmem => hnot (Up.of_parent (wf.parent_iff.2 ⟨i, hi, hmem⟩))
  have herase : i.children.erase key = i.children := erase_of_not_mem hkey
  have hchild : ∀ c ∈ i.children, SameBest fc w c ∧ SameDeepest fc w c := by
    intro c hc
    obtain ⟨-, hcout⟩ := mem_children wf hi hn (herase.symm ▸ hc)
    obtain ⟨ic, hic, -⟩ := wf.child_mem n i c hi hc
    have hic' := h.info_some wf hic hcout
    exact ⟨⟨(weight_of_info hic).trans (weight_of_info hic').symm,
        (candidate_of_info hic).trans (candidate_of_info hic').symm,
        (bestOf_of_info hic).trans (bestOf_of_info hic').symm⟩,
      ⟨(weight_of_info hic).trans (weight_of_info hic').symm,
        (heightOf_of_info hic).trans (heightOf_of_info hic').symm,
        (deepestOf_of_info hic).trans (deepestOf_of_info hic').symm⟩⟩
  have hbest : ¬ Up fc i.bestSlot key := by
    intro hup
    rcases hup.total hold.best_up with hkn | hnk
    · exact hnot hkn
    · exact hn hnk
  refine ⟨?_, ?_, ?_, h.up wf hold.best_up hbest⟩
  · dsimp only
    rw [herase, ← map_weight_congr (fun c hc => (hchild c hc).1.weight_eq)]
    exact hold.weight_eq
  · dsimp only
    rw [herase]
    exact hold.deepest.congr fun c hc => (hchild c hc).2
  · intro hcand
    dsimp only
    rw [herase]
    exact (hold.best hcand).congr fun c hc => (hchild c hc).1

lemma marksConsistent (wf : WellFormed fc) (hmarks : MarksConsistent fc) : MarksConsistent w := by
  refine hmarks.of_back fun n i' hi' => ?_
  obtain ⟨-, i, hi, rfl⟩ := h.info_back wf hi'
  exact ⟨i, hi, fun _ hq => hq, rfl, rfl⟩

/-- Aggregating the ancestors of the cut brings everything up to date. -/
theorem sound_of_processed (hsound : Sound fc)
    {w' : HeaviestSubtreeForkChoice} (hprocessed : ProcessedBy w ops w')
    (hops : ∀ n, ops n = if n ∈ fc.ancestorIterator key then { KeyOperations.none with aggregate := true }
      else KeyOperations.none) : Sound w' := by
  have wf := hsound.wf
  have wf' := h.wellFormed wf
  have hunmarked : ∀ n, (ops n).markValid = none ∧ (ops n).markInvalid = none := by
    intro n
    rw [hops n]
    split <;> simp [KeyOperations.none]
  have hsafe : ∀ n i, w.info n = some i → SafeOperations (ops n) i := by
    intro n i _
    rw [hops n]
    split <;> exact ⟨by simp [KeyOperations.none], by simp [KeyOperations.none]⟩
  have hscheduled : Scheduled w ops := by
    refine ⟨?_, ?_⟩
    · intro n q hq htouched
      have hin : n ∈ fc.ancestorIterator key := by
        by_contra hnot
        rw [hops n, if_neg hnot] at htouched
        exact htouched rfl
      obtain ⟨hup, hne⟩ := wf.mem_ancestorIterator.1 hin
      have hout : ¬ Up fc n key := fun hnk => hne (wf.up_antisymm hnk hup)
      rw [h.parent_eq wf hout] at hq
      rw [hops q, if_pos (wf.parent_mem_ancestorIterator hup hq)]
    · rintro n (hmark | hmark)
      · exact absurd (hunmarked n).1 hmark
      · exact absurd (hunmarked n).2 hmark
  have hbefore : ∀ n i, w.info n = some i → (ops n).aggregate = false → UpToDateAt w n i := by
    intro n i hi hagg
    refine h.upToDate hsound hi ?_
    intro hup
    have hne : n ≠ key := by
      rintro rfl
      simp [h.info_below n (Up.refl fc n)] at hi
    rw [hops n, if_pos (wf.mem_ancestorIterator.2 ⟨hup, hne⟩)] at hagg
    simp at hagg
  have hmarks := hprocessed.marks_eq wf' (h.marksConsistent wf hsound.marks) hunmarked
  exact ⟨hprocessed.sameTree.wellFormed wf', hprocessed.upToDate hscheduled wf' hsafe hbefore,
    (SameForks.mk hprocessed.sameTree hmarks).marksConsistent (h.marksConsistent wf hsound.marks)⟩

end

end Severed

lemma reachable_congr {root2 : Option SlotHashKey} {S : SlotHashKey → Prop}
    (hinfo : ∀ n, S n → fc'.info n = fc.info n)
    (hclosed : ∀ n i c, S n → fc.info n = some i → c ∈ i.children → S c) (fuel : Nat)
    {k : SlotHashKey} (hk : S k) : fc'.reachable root2 fuel k = fc.reachable root2 fuel k := by
  induction fuel generalizing k with
  | zero => rfl
  | succ fuel ih =>
    unfold reachable
    split
    · rfl
    · cases hi : fc.info k with
      | none => simp [children, hinfo k hk, hi]
      | some i =>
        have hmap : i.children.mapM (fc'.reachable root2 fuel) = i.children.mapM (fc.reachable root2 fuel) := by
          have hall : ∀ cs : List SlotHashKey, (∀ c ∈ cs, S c) →
              cs.mapM (fc'.reachable root2 fuel) = cs.mapM (fc.reachable root2 fuel) := by
            intro cs hcs
            induction cs with
            | nil => rfl
            | cons c cs ihcs =>
              rw [mapM_cons, mapM_cons, ih (hcs c mem_cons_self),
                ihcs (fun c' hc' => hcs c' (mem_cons_of_mem _ hc'))]
          exact hall _ fun c hc => hclosed k i c hk hi hc
        simp [children, hinfo k hk, hi, hmap]

lemma size_eq_of_same_nodes (h : ∀ n, fc'.info n = none ↔ fc.info n = none) :
    fc'.forkInfos.size = fc.forkInfos.size := by
  rw [← TreeMap.length_keys, ← TreeMap.length_keys]
  apply List.Perm.length_eq
  rw [perm_ext_iff_of_nodup TreeMap.nodup_keys TreeMap.nodup_keys]
  intro n
  have hn := not_congr (h n)
  simp only [info, ← ne_eq, ← isSome_iff_ne_none] at hn
  rw [TreeMap.mem_keys, TreeMap.mem_keys, TreeMap.mem_iff_isSome_getElem?,
    TreeMap.mem_iff_isSome_getElem?, hn]

lemma votedStake_congr {votes' : TreeMap Pubkey SlotHashKey}
    (h : ∀ pubkey : Pubkey, votes[pubkey]? = some n ↔ votes'[pubkey]? = some n) :
    votedStake env votes n = votedStake env votes' n := by
  unfold votedStake
  congr 1
  ext pubkey
  rw [Finset.mem_filter, Finset.mem_filter]
  constructor
  · rintro ⟨-, hvote⟩
    exact ⟨mem_keys_of_getElem? ((h pubkey).1 hvote), (h pubkey).1 hvote⟩
  · rintro ⟨-, hvote⟩
    exact ⟨mem_keys_of_getElem? ((h pubkey).2 hvote), (h pubkey).2 hvote⟩

lemma votedStake_filter_contains (hn : forkInfos[n]? ≠ none) :
    votedStake env (votes.filter (fun _ node => forkInfos.contains node)) n = votedStake env votes n := by
  have hin : forkInfos.contains n = true := by
    rw [TreeMap.contains_eq_isSome_getElem?]
    exact isSome_iff_ne_none.2 hn
  apply votedStake_congr
  intro pubkey
  rw [TreeMap.getElem?_filter', filter_eq_some_iff]
  constructor
  · exact fun h => h.1
  · exact fun h => ⟨h, hin⟩

lemma votesCounted_filter (votes : TreeMap Pubkey SlotHashKey)
    (hvotes : fc.latestVotes = votes.filter (fun _ node => fc.forkInfos.contains node))
    (h : ∀ n i, fc.info n = some i → i.stakeVotedAt = votedStake env votes n) :
    VotesCounted env fc := by
  intro n i hi
  have hin : fc.forkInfos[n]? ≠ none := by
    unfold info at hi
    simp [hi]
  rw [hvotes, votedStake_filter_contains hin]
  exact h n i hi

lemma ofList_childInfo (hnodup : l.Nodup) (hmem : ∀ n ∈ l, fc.info n ≠ none) :
    ∃ nodes, l.mapM fc.childInfo = some nodes ∧
      ∀ n : SlotHashKey, (TreeMap.ofList nodes)[n]? = if n ∈ l then fc.info n else none := by
  obtain ⟨nodes, hnodes, hkeys, hvalues⟩ := mapM_childInfo hmem
  refine ⟨nodes, hnodes, ?_⟩
  intro n
  split
  · rename_i hn
    rw [← hkeys] at hn
    obtain ⟨⟨m, i⟩, hnode, rfl⟩ := mem_map.1 hn
    rw [hvalues _ hnode]
    refine TreeMap.getElem?_ofList_of_mem (k := m) (by simp) ?_ hnode
    rw [← hkeys] at hnodup
    exact (pairwise_map.1 hnodup).imp fun hne heq => hne (compare_eq_iff_eq.1 heq)
  · rename_i hn
    apply TreeMap.getElem?_ofList_of_contains_eq_false
    rw [hkeys]
    simpa using hn

lemma opsAt_split (wf : WellFormed fc) (key n : SlotHashKey) :
    opsAt (fc.insertAggregateOperations ∅ key) n =
      if n ∈ fc.ancestorIterator key then { KeyOperations.none with aggregate := true }
      else KeyOperations.none := by
  rw [opsAt_insertAggregateOperations wf ∅ key, opsAt_empty]
  intro a _ _ hagg
  simp [opsAt_empty, KeyOperations.none] at hagg

/-- `u` is `fc` without the child link to `key`; its subtree is still there. -/
structure Unlinked (fc : HeaviestSubtreeForkChoice) (key p : SlotHashKey)
    (u : HeaviestSubtreeForkChoice) : Prop where
  parent_key : fc.parent key = some p
  treeRoot_eq : u.treeRoot = fc.treeRoot
  info_parent : ∀ ip, fc.info p = some ip →
    u.info p = some { ip with children := ip.children.erase key }
  info_other : ∀ n, n ≠ p → u.info n = fc.info n

namespace Unlinked
variable {u u' : HeaviestSubtreeForkChoice}

section

variable (h : Unlinked fc key p u)

include h

section

variable (wf : WellFormed fc)

include wf

lemma info_below (hn : Up fc n key) : u.info n = fc.info n := by
  apply h.info_other
  rintro rfl
  exact wf.not_up_of_parent h.parent_key hn

lemma info_none_iff (n : SlotHashKey) : u.info n = none ↔ fc.info n = none := by
  by_cases hn : n = p
  · subst hn
    obtain ⟨ip, hip, -⟩ := wf.parent_iff.1 h.parent_key
    simp [h.info_parent ip hip, hip]
  · rw [h.info_other n hn]

lemma childrenAbove : ChildrenAbove u := by
  have habove := wf.childrenAbove
  intro n i hi c hc
  rw [ne_eq, h.info_none_iff wf c]
  by_cases hn : n = p
  · subst hn
    obtain ⟨ip, hip, -⟩ := wf.parent_iff.1 h.parent_key
    obtain rfl := mem_unique (h.info_parent ip hip) hi
    exact habove n ip hip c (mem_of_mem_erase hc)
  · rw [h.info_other n hn] at hi
    exact habove n i hi c hc

lemma aggregated :
    ∃ u', u.processUpdateOperations (fc.insertAggregateOperations ∅ key) = some u' ∧
      ProcessedBy u (opsAt (fc.insertAggregateOperations ∅ key)) u' ∧
      u'.forkInfos.size = fc.forkInfos.size ∧ ∀ n, Up fc n key → u'.info n = fc.info n := by
  obtain ⟨u', hu', hprocessed⟩ := processUpdateOperations_spec (fc.insertAggregateOperations ∅ key)
    (h.childrenAbove wf) (by
      intro n i _
      rw [opsAt_split wf]
      split <;> exact ⟨by simp [KeyOperations.none], by simp [KeyOperations.none]⟩)
  refine ⟨u', hu', hprocessed, ?_, ?_⟩
  · apply size_eq_of_same_nodes
    intro n
    rw [hprocessed.info_none_iff, h.info_none_iff wf n]
  · intro n hn
    have hnot : n ∉ fc.ancestorIterator key := by
      intro hin
      obtain ⟨hup, hnk⟩ := wf.mem_ancestorIterator.1 hin
      exact hnk (wf.up_antisymm hn hup)
    rw [hprocessed.untouched (by rw [opsAt_split wf, if_neg hnot]), h.info_below wf hn]

lemma severed (hprocessed : ProcessedBy u ops u')
    {kept : HeaviestSubtreeForkChoice} (hroot : kept.treeRoot = u'.treeRoot)
    (hbelow : ∀ n, Up fc n key → kept.info n = none)
    (hother : ∀ n, ¬ Up fc n key → kept.info n = u'.info n) :
    ∃ w, Severed fc key p w ∧ ProcessedBy w ops kept := by
  have hnone := hprocessed.info_none_iff
  let w : HeaviestSubtreeForkChoice :=
    { forkInfos := u.forkInfos.filter fun n _ => (kept.info n).isSome
      latestVotes := kept.latestVotes
      treeRoot := kept.treeRoot }
  have hw : ∀ n, w.info n = (u.info n).filter (fun _ => (kept.info n).isSome) := by
    intro n
    simp [w, info]
  have hw_below : ∀ n, Up fc n key → w.info n = none := by
    intro n hn
    rw [hw n, hbelow n hn]
    cases u.info n <;> rfl
  have hw_other : ∀ n, ¬ Up fc n key → w.info n = u.info n := by
    intro n hn
    rw [hw n, hother n hn]
    cases hi : u.info n with
    | none => rfl
    | some i =>
      have hsome : (u'.info n).isSome = true :=
        isSome_iff_ne_none.2 (mt (hnone n).1 (by simp [hi]))
      simp [Option.filter, hsome]
  have hpout := wf.not_up_of_parent h.parent_key
  have hsevered : Severed fc key p w := by
    refine ⟨h.parent_key, ?_, hw_below, ?_, ?_⟩
    · exact (hroot.trans hprocessed.treeRoot_eq).trans h.treeRoot_eq
    · intro ip hip
      rw [hw_other p hpout]
      exact h.info_parent ip hip
    · intro n hn hnp
      rw [hw_other n hn]
      exact h.info_other n hnp
  refine ⟨w, hsevered, rfl, rfl, ?_, ?_⟩
  · intro n hn
    by_cases hup : Up fc n key
    · exact hbelow n hup
    · rw [hother n hup, hnone n, ← hw_other n hup]
      exact hn
  · intro n i hi
    obtain ⟨hn, i₀, hi₀, heq⟩ := hsevered.info_back wf hi
    rw [hw_other n hn] at hi
    obtain ⟨i', hi', hp⟩ := hprocessed.info_some n i hi
    refine ⟨i', (hother n hn).trans hi', hp.congr ?_⟩
    intro c hc
    rw [heq] at hc
    exact (hother c (Severed.mem_children wf hi₀ hn hc).2).symm

end

end

end Unlinked

/-- The two trees of a split: the rest with its ancestors aggregated again, and the subtree. Each
keeps the votes on its own nodes. -/
lemma splitOff_shape (wf : WellFormed fc) (hkey : fc.info key ≠ none) (hne : key ≠ fc.treeRoot) :
    ∃ kept split p w, fc.splitOff key = some (kept, split) ∧ Severed fc key p w ∧
      ProcessedBy w (opsAt (fc.insertAggregateOperations ∅ key)) kept ∧
      Subtree fc key split ∧
      kept.latestVotes = fc.latestVotes.filter (fun _ node => kept.forkInfos.contains node) ∧
      split.latestVotes = fc.latestVotes.filter (fun _ node => split.forkInfos.contains node) := by
  obtain ⟨ikey, hikey⟩ := ne_none_iff_exists'.1 hkey
  obtain ⟨p, ip, hp, hip, hmem⟩ := wf.parent_mem key ikey hikey hne
  have hunlinked : Unlinked fc key p (fc.setInfo p { ip with children := ip.children.erase key }) := by
    refine ⟨parent_eq_some.2 ⟨ikey, hikey, hp⟩, rfl, ?_, fun n hn => info_setInfo_of_ne _ _ _ _ hn.symm⟩
    intro ip' hip'
    obtain rfl := mem_unique hip hip'
    exact info_setInfo_self _ _ _
  obtain ⟨u, hu, hprocessed, hsize, hbelow⟩ := hunlinked.aggregated wf
  have hvotes : u.latestVotes = fc.latestVotes := hprocessed.latestVotes_eq
  -- the subtree is removed and becomes a tree of its own
  obtain ⟨nodes, hnodes, hnodup, hreach⟩ := wf.reachable_all none hikey
  have hinside : ∀ n, n ∈ nodes ↔ Up fc n key := by
    intro n
    rw [hreach n]
    exact ⟨fun h => h.1, fun h => ⟨h, by simp⟩⟩
  have hreachable : u.reachable none (u.forkInfos.size + 1) key = some nodes := by
    rw [hsize, reachable_congr (S := fun n => Up fc n key) hbelow ?_ _ (Up.refl fc key), hnodes]
    intro n i c hn hi hc
    exact (Up.of_parent (wf.parent_iff.2 ⟨i, hi, hc⟩)).trans hn
  have hu_mem : ∀ n ∈ nodes, u.info n ≠ none := by
    intro n hn
    rw [hbelow n ((hinside n).1 hn)]
    exact mem_of_up_mem ((hinside n).1 hn) hkey
  obtain ⟨rest, hrest, hrest_spec⟩ := removeAll_spec hnodup hu_mem
  obtain ⟨splitNodes, hsplitNodes, hsplit_spec⟩ := ofList_childInfo hnodup hu_mem
  set splitInfos := (TreeMap.ofList splitNodes).insert key { ikey with parent := none } with hsplitInfos
  have hkept : ∃ w, Severed fc key p w ∧ ProcessedBy w
      (opsAt (fc.insertAggregateOperations ∅ key)) { u with
        forkInfos := rest
        latestVotes := u.latestVotes.filter (fun _ node => rest.contains node) } := by
    refine hunlinked.severed wf hprocessed rfl ?_ ?_
    · intro n hn
      simp [info, hrest_spec, (hinside n).2 hn]
    · intro n hn
      simp [info, hrest_spec, mt (hinside n).1 hn]
  have hsplit : Subtree fc key { forkInfos := splitInfos
                                 latestVotes := u.latestVotes.filter
                                   (fun _ node => splitInfos.contains node)
                                 treeRoot := key } := by
    have hlookup : ∀ n : SlotHashKey, key ≠ n →
        splitInfos[n]? = if n ∈ nodes then u.info n else none := by
      intro n hn
      rw [hsplitInfos, TreeMap.getElem?_insert, if_neg (by simpa using hn), hsplit_spec]
    refine ⟨hkey, rfl, ?_, ?_, ?_⟩
    · intro i hi
      obtain rfl := mem_unique hikey hi
      simp [info, hsplitInfos]
    · intro n hn hup
      rw [info, hlookup n hn.symm, if_pos ((hinside n).2 hup), hbelow n hup]
    · intro n hout
      have hnk : key ≠ n := by
        rintro rfl
        exact hout (Up.refl fc key)
      rw [info, hlookup n hnk, if_neg (mt (hinside n).1 hout)]
  obtain ⟨w, hsevered, hprocessed'⟩ := hkept
  refine ⟨_, _, p, w, ?_, hsevered, hprocessed', hsplit, ?_, ?_⟩
  · rw [splitOff, if_neg hne.symm]
    simp [hikey, hp, hip, hmem, hu, hreachable, hsplitNodes, hrest, hsplitInfos]
  · rw [← hvotes]
  · rw [← hvotes]

/-- Splitting off a node below the root yields two trees that satisfy the invariant. -/
theorem splitOff_spec (hsound : Sound fc) (hkey : fc.info key ≠ none) (hne : key ≠ fc.treeRoot) :
    ∃ kept split, fc.splitOff key = some (kept, split) ∧ Sound kept ∧ Sound split ∧
      ∀ env, VotesCounted env fc → VotesCounted env kept ∧ VotesCounted env split := by
  have wf := hsound.wf
  obtain ⟨kept, split, p, w, heq, hsevered, hprocessed, hsplit, hkept, hsplit_votes⟩ :=
    splitOff_shape wf hkey hne
  refine ⟨kept, split, heq, hsevered.sound_of_processed hsound hprocessed (opsAt_split wf key),
    hsplit.sound hsound, ?_⟩
  intro env hcounted
  constructor
  · refine votesCounted_filter fc.latestVotes hkept ?_
    intro n i' hi'
    obtain ⟨i₁, hi₁, hkey'⟩ := hprocessed.info_back hi'
    obtain ⟨-, i, hi, rfl⟩ := hsevered.info_back wf hi₁
    rw [hkey'.frame.2.2, opsAt_split wf]
    split <;> exact hcounted n i hi
  · refine votesCounted_filter fc.latestVotes hsplit_votes ?_
    intro n i' hi'
    obtain ⟨i, hi, rfl⟩ := hsplit.info_back hi'
    exact hcounted n i hi

end Nuah.Proofs
