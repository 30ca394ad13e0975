import Nuah.Proofs.ForkSound

/-!
# Propagating a new leaf

The two loops of `propagate_new_leaf`: the leaf takes over the best slot, and the height and
deepest slot grow, along a prefix of its ancestors.
-/

namespace Nuah.Proofs
open HeaviestSubtreeForkChoice Champion Option
open scoped List

variable {a : SlotHashKey} {i : ForkInfo} {fc' : HeaviestSubtreeForkChoice} {height : Nat}

variable {fc fc₁ fc₂ : HeaviestSubtreeForkChoice} {key x : SlotHashKey}

lemma allM_eq_some {α : Type} {f : α → Option Bool} {g : α → Bool} {l : List α}
    (h : ∀ x ∈ l, f x = some (g x)) : l.allM f = some (l.all g) := by
  induction l with
  | nil => rfl
  | cons x l ih =>
    have hrest := ih fun y hy => h y (List.mem_cons_of_mem _ hy)
    rw [List.allM, h x List.mem_cons_self, List.all_cons]
    cases g x with
    | false => rfl
    | true => simpa using hrest

section Siblings
variable {m : SlotHashKey} {im : ForkInfo}

lemma isBestChild_spec (wf : WellFormed fc) (hx : fc.parent x = some m) (hm : fc.info m = some im) :
    ∃ b, fc.isBestChild x = some b ∧
      (b = true ↔ ∀ c ∈ im.children, candidate fc c = true → bestScore fc c ≤ bestScore fc x) := by
  obtain ⟨ix, hix, -⟩ := parent_eq_some.1 hx
  refine ⟨im.children.all (fun c => !(candidate fc c && (decide (weight fc x < weight fc c) ||
    (decide (weight fc x = weight fc c) && decide (c < x))))), ?_, ?_⟩
  · have hweight : fc.stakeVotedSubtree x = some ix.stakeVotedSubtree := by simp [stakeVotedSubtree, hix]
    have hchildren : fc.children m = some im.children := by
      simp [children, hm]
    simp only [isBestChild, hweight, hx, hchildren, bind_eq_bind, bind_some]
    refine allM_eq_some ?_
    intro c hc
    obtain ⟨ic, hic, -⟩ := wf.child_mem m im c hm hc
    simp [stakeVotedSubtree, isCandidate, hic, weight_of_info hic, candidate_of_info hic,
      weight_of_info hix]
  · rw [List.all_eq_true]
    refine forall_congr' fun c => forall_congr' fun _ => ?_
    have hscore : bestScore fc c ≤ bestScore fc x ↔
        ¬ (weight fc x < weight fc c ∨ (weight fc c = weight fc x ∧ c < x)) := by
      rw [← bestScore_lt, not_lt]
    rw [hscore, eq_comm (a := weight fc c)]
    cases candidate fc c with
    | false => simp
    | true =>
      simp
      tauto

lemma isDeepestChild_spec (wf : WellFormed fc) (hx : fc.parent x = some m) (hm : fc.info m = some im) :
    ∃ b, fc.isDeepestChild x = some b ∧ (b = true ↔ IsChampion (depthScore fc) im.children x) := by
  obtain ⟨ix, hix, -⟩ := parent_eq_some.1 hx
  refine ⟨im.children.all (fun c => !(decide (heightOf fc x < heightOf fc c) ||
    (decide (heightOf fc c = heightOf fc x) && decide (weight fc x < weight fc c)) ||
    (decide (heightOf fc c = heightOf fc x) && decide (weight fc c = weight fc x) &&
      decide (c < x)))), ?_, ?_⟩
  · have hweight : fc.stakeVotedSubtree x = some ix.stakeVotedSubtree := by simp [stakeVotedSubtree, hix]
    have hheight : fc.height x = some ix.height := by simp [height, hix]
    have hchildren : fc.children m = some im.children := by
      simp [children, hm]
    simp only [isDeepestChild, hweight, hheight, hx, hchildren, bind_eq_bind, bind_some]
    refine allM_eq_some ?_
    intro c hc
    obtain ⟨ic, hic, -⟩ := wf.child_mem m im c hm hc
    simp [stakeVotedSubtree, height, hic, weight_of_info hic, heightOf_of_info hic, weight_of_info hix,
      heightOf_of_info hix]
  · have hmem : x ∈ im.children := by
      obtain ⟨im', him', hmem⟩ := wf.parent_iff.1 hx
      obtain rfl := mem_unique him' hm
      exact hmem
    rw [List.all_eq_true, IsChampion, and_iff_right hmem]
    refine forall_congr' fun c => forall_congr' fun _ => ?_
    rw [← not_lt, depthScore_lt]
    simp only [Bool.not_eq_true', Bool.or_eq_false_iff, Bool.and_eq_false_iff, decide_eq_false_iff_not]
    tauto

end Siblings

lemma info_of_setInfo (hset : fc.setInfo a i = fc₁) :
    fc₁.info a = some i ∧ ∀ n, n ≠ a → fc₁.info n = fc.info n := by
  subst hset
  exact ⟨info_setInfo_self fc a i, fun n hn => info_setInfo_of_ne fc a n i hn.symm⟩

lemma info_setInfo_of_none {n : SlotHashKey} {i' : ForkInfo} (hi : fc.info a = some i)
    (hn : fc.info n = none) : (fc.setInfo a i').info n = none := by
  rw [info_setInfo_of_ne]
  · exact hn
  · rintro rfl
    simp [hi] at hn

structure OnlyBest (fc fc' : HeaviestSubtreeForkChoice) : Prop where
  treeRoot_eq : fc'.treeRoot = fc.treeRoot
  latestVotes_eq : fc'.latestVotes = fc.latestVotes
  info_none : ∀ n, fc.info n = none → fc'.info n = none
  info_some : ∀ n i, fc.info n = some i → ∃ best, fc'.info n = some { i with bestSlot := best }

lemma OnlyBest.refl (fc : HeaviestSubtreeForkChoice) : OnlyBest fc fc :=
  ⟨rfl, rfl, fun _ h => h, fun _ i h => ⟨i.bestSlot, h⟩⟩

lemma OnlyBest.trans (h₁ : OnlyBest fc fc₁) (h₂ : OnlyBest fc₁ fc₂) : OnlyBest fc fc₂ := by
  refine ⟨h₂.treeRoot_eq.trans h₁.treeRoot_eq, h₂.latestVotes_eq.trans h₁.latestVotes_eq,
    fun n hn => h₂.info_none n (h₁.info_none n hn), ?_⟩
  intro n i hi
  obtain ⟨b₁, hb₁⟩ := h₁.info_some n i hi
  obtain ⟨b₂, hb₂⟩ := h₂.info_some n _ hb₁
  exact ⟨b₂, hb₂⟩

lemma onlyBest_setInfo (hi : fc.info a = some i) (best : SlotHashKey) :
    OnlyBest fc (fc.setInfo a { i with bestSlot := best }) := by
  refine ⟨rfl, rfl, fun _ => info_setInfo_of_none hi, ?_⟩
  intro n j hj
  by_cases hn : a = n
  · subst hn
    obtain rfl := mem_unique hi hj
    exact ⟨best, info_setInfo_self fc a _⟩
  · exact ⟨j.bestSlot, (info_setInfo_of_ne fc a n _ hn).trans hj⟩

lemma OnlyBest.sameTree (h : OnlyBest fc fc') : SameTree fc fc' := by
  refine ⟨h.treeRoot_eq, h.info_none, ?_⟩
  intro n i hi
  obtain ⟨best, hb⟩ := h.info_some n i hi
  exact ⟨_, hb, rfl, rfl⟩

lemma OnlyBest.accessors (h : OnlyBest fc fc') (c : SlotHashKey) :
    weight fc c = weight fc' c ∧ candidate fc c = candidate fc' c ∧ heightOf fc c = heightOf fc' c ∧
      deepestOf fc c = deepestOf fc' c := by
  cases hi : fc.info c with
  | none =>
    have hi' := h.info_none c hi
    simp [weight, candidate, heightOf, deepestOf, stakeVotedSubtree, isCandidate, height, hi, hi']
  | some i =>
    obtain ⟨best, hb⟩ := h.info_some c i hi
    simp [weight, candidate, heightOf, deepestOf, stakeVotedSubtree, isCandidate,
      height, hi, hb, ForkInfo.isCandidate]

/-- What `propagate_best` does from `a` upwards: the updated nodes are a part of the path from
`a` to the root that starts at `a` and goes on while the old best slot is shared. -/
structure BestPropagated (fc : HeaviestSubtreeForkChoice) (key oldBest a : SlotHashKey)
    (updated : SlotHashKey → Prop) (fc' : HeaviestSubtreeForkChoice) : Prop where
  onlyBest : OnlyBest fc fc'
  of_updated : ∀ n, updated n → Up fc a n ∧ bestOf fc n = oldBest ∧ bestOf fc' n = key
  of_not_updated : ∀ n, ¬ updated n → bestOf fc' n = bestOf fc n
  start_iff : updated a ↔ bestOf fc a = oldBest
  parent_iff : ∀ n m, Up fc a n → fc.parent n = some m →
    (updated m ↔ updated n ∧ bestOf fc m = oldBest)

lemma propagateBest_spec (key oldBest : SlotHashKey) (fuel : Nat) (wf : WellFormed fc)
    (hi : fc.info a = some i) (hfuel : a.slot < fuel) :
    ∃ fc' updated, propagateBest key oldBest fuel fc (some a) = some fc' ∧
      BestPropagated fc key oldBest a updated fc' := by
  induction fuel generalizing fc a i with
  | zero => exact absurd hfuel (Nat.not_lt_zero _)
  | succ fuel ih =>
    unfold propagateBest
    rw [hi]
    simp only [bind_eq_bind, bind_some]
    by_cases hbest : i.bestSlot = oldBest
    · rw [if_pos hbest]
      have honly := onlyBest_setInfo hi key
      have hself : bestOf (fc.setInfo a { i with bestSlot := key }) a = key :=
        bestOf_of_info (info_setInfo_self fc a _)
      have hother : ∀ n, a ≠ n → bestOf (fc.setInfo a { i with bestSlot := key }) n = bestOf fc n := by
        intro n hn
        simp [bestOf, bestSlot, info_setInfo_of_ne fc a n _ hn]
      generalize fc.setInfo a { i with bestSlot := key } = fc₁ at honly hself hother ⊢
      have hup₁ : Up fc₁ = Up fc := honly.sameTree.up_eq
      cases hp : i.parent with
      | none =>
        have htop : ∀ m, fc.parent a ≠ some m := by simp [parent, hi, hp]
        refine ⟨fc₁, fun n => n = a, by unfold propagateBest; rfl, honly, ?_, ?_, ?_, ?_⟩
        · rintro n rfl
          exact ⟨Up.refl fc n, (bestOf_of_info hi).trans hbest, hself⟩
        · intro n hn
          exact hother n (Ne.symm hn)
        · simp [bestOf_of_info hi, hbest]
        · intro n m hup hm
          rcases hup.cases_head with rfl | ⟨p, hp', -⟩
          · exact absurd hm (htop m)
          · exact absurd hp' (htop p)
      | some p =>
        have hparent : fc.parent a = some p := parent_eq_some.2 ⟨i, hi, hp⟩
        have hlt := wf.slot_lt_of_parent hparent
        obtain ⟨ip, hip, -⟩ := wf.parent_iff.1 hparent
        obtain ⟨ip₁, hip₁, -⟩ := honly.sameTree.info_some p ip hip
        obtain ⟨fc', updated, heq, hrest⟩ := ih (honly.sameTree.wellFormed wf) hip₁
          (Nat.lt_of_lt_of_le hlt (Nat.le_of_lt_succ hfuel))
        have hnota := wf.not_up_of_parent hparent
        have hupd : ¬ updated a := fun h => hnota (hup₁ ▸ (hrest.of_updated a h).1)
        have hap : a ≠ p := fun h => hnota (h ▸ Up.refl fc a)
        refine ⟨fc', fun n => n = a ∨ updated n, heq, honly.trans hrest.onlyBest, ?_, ?_, ?_, ?_⟩
        · rintro n (rfl | hn)
          · exact ⟨Up.refl fc n, (bestOf_of_info hi).trans hbest, (hrest.of_not_updated n hupd).trans hself⟩
          · obtain ⟨hup, hold, hnew⟩ := hrest.of_updated n hn
            have hne : a ≠ n := fun h => hupd (h ▸ hn)
            exact ⟨(Up.of_parent hparent).trans (hup₁ ▸ hup), (hother n hne) ▸ hold, hnew⟩
        · intro n hn
          push Not at hn
          exact (hrest.of_not_updated n hn.2).trans (hother n (Ne.symm hn.1))
        · simp [bestOf_of_info hi, hbest]
        · intro n m hup hm
          have hma : m ≠ a := by
            rintro rfl
            exact wf.not_up_of_parent hm hup
          rcases hup.cases_head with rfl | ⟨p', hp', hup'⟩
          · obtain rfl := mem_unique hm hparent
            simp [hma, hrest.start_iff, hother m hap]
          · obtain rfl := mem_unique hp' hparent
            have hne : n ≠ a := fun h => hnota (h ▸ hup')
            have hrec := hrest.parent_iff n m (hup₁ ▸ hup') ((honly.sameTree.parent_eq n).trans hm)
            rw [hother m (Ne.symm hma)] at hrec
            simp [hma, hne, hrec]
    · rw [if_neg hbest]
      refine ⟨fc, fun _ => False, rfl, OnlyBest.refl fc, by simp, by simp, ?_, by simp⟩
      simp [bestOf_of_info hi, hbest]

structure OnlyDeepest (fc fc' : HeaviestSubtreeForkChoice) : Prop where
  treeRoot_eq : fc'.treeRoot = fc.treeRoot
  latestVotes_eq : fc'.latestVotes = fc.latestVotes
  info_none : ∀ n, fc.info n = none → fc'.info n = none
  info_some : ∀ n i, fc.info n = some i →
    ∃ deepest height, fc'.info n = some { i with deepestSlot := deepest, height := height }

lemma OnlyDeepest.refl (fc : HeaviestSubtreeForkChoice) : OnlyDeepest fc fc :=
  ⟨rfl, rfl, fun _ h => h, fun _ i h => ⟨i.deepestSlot, i.height, h⟩⟩

lemma OnlyDeepest.trans (h₁ : OnlyDeepest fc fc₁) (h₂ : OnlyDeepest fc₁ fc₂) :
    OnlyDeepest fc fc₂ := by
  refine ⟨h₂.treeRoot_eq.trans h₁.treeRoot_eq, h₂.latestVotes_eq.trans h₁.latestVotes_eq,
    fun n hn => h₂.info_none n (h₁.info_none n hn), ?_⟩
  intro n i hi
  obtain ⟨d₁, k₁, hb₁⟩ := h₁.info_some n i hi
  obtain ⟨d₂, k₂, hb₂⟩ := h₂.info_some n _ hb₁
  exact ⟨d₂, k₂, hb₂⟩

lemma onlyDeepest_setInfo (hi : fc.info a = some i) (deepest : SlotHashKey) (height : Nat) :
    OnlyDeepest fc (fc.setInfo a { i with deepestSlot := deepest, height := height }) := by
  refine ⟨rfl, rfl, fun _ => info_setInfo_of_none hi, ?_⟩
  intro n j hj
  by_cases hn : a = n
  · subst hn
    obtain rfl := mem_unique hi hj
    exact ⟨deepest, height, info_setInfo_self fc a _⟩
  · exact ⟨j.deepestSlot, j.height, (info_setInfo_of_ne fc a n _ hn).trans hj⟩

lemma OnlyDeepest.sameTree (h : OnlyDeepest fc fc') : SameTree fc fc' := by
  refine ⟨h.treeRoot_eq, h.info_none, ?_⟩
  intro n i hi
  obtain ⟨d, k, hb⟩ := h.info_some n i hi
  exact ⟨_, hb, rfl, rfl⟩

lemma OnlyDeepest.sameBest (h : OnlyDeepest fc fc') (c : SlotHashKey) : SameBest fc fc' c := by
  cases hi : fc.info c with
  | none => exact sameBest_of_info (hi.trans (h.info_none c hi).symm)
  | some i =>
    obtain ⟨d, k, hb⟩ := h.info_some c i hi
    exact ⟨(weight_of_info hi).trans (weight_of_info hb).symm,
      (candidate_of_info hi).trans (candidate_of_info hb).symm,
      (bestOf_of_info hi).trans (bestOf_of_info hb).symm⟩

lemma heightOf_le_of_depthScore_le {b : SlotHashKey} (h : depthScore fc a ≤ depthScore fc b) :
    heightOf fc a ≤ heightOf fc b := by
  rcases (Prod.Lex.toLex_le_toLex).1 h with hlt | ⟨heq, -⟩
  · exact le_of_lt hlt
  · exact le_of_eq heq

/-- Before the loop looks at `a`: its child `x` has just been set, all other nodes are up to
date, and `a` is as well unless `x` has become its deepest child. -/
structure DeepestPending (fc : HeaviestSubtreeForkChoice) (key a x : SlotHashKey) (height : Nat) :
    Prop where
  wf : WellFormed fc
  child : fc.parent x = some a
  child_height : heightOf fc x = height
  child_deepest : deepestOf fc x = key
  others : ∀ n i, fc.info n = some i → n ≠ a → DeepestUpToDate fc n i.children i.height i.deepestSlot
  taken_over : ∀ i, fc.info a = some i → IsChampion (depthScore fc) i.children x →
    i.height ≤ height + 1
  kept : ∀ i, fc.info a = some i → ¬ IsChampion (depthScore fc) i.children x →
    DeepestUpToDate fc a i.children i.height i.deepestSlot

/-- Setting a node whose changed child is the deepest brings all nodes up to date, except
perhaps its parent. -/
lemma DeepestPending.set (h : DeepestPending fc key a x height) (hi : fc.info a = some i)
    (hchamp : IsChampion (depthScore fc) i.children x)
    (hset : fc.setInfo a { i with deepestSlot := key, height := height + 1 } = fc₁) {n : SlotHashKey}
    {j : ForkInfo} (hj : fc₁.info n = some j) (hn : fc.parent a ≠ some n) :
    DeepestUpToDate fc₁ n j.children j.height j.deepestSlot := by
  obtain ⟨hself, hother⟩ := info_of_setInfo hset
  have wf := h.wf
  have hsame : ∀ c, c ≠ a → SameDeepest fc fc₁ c := fun c hc =>
    sameDeepest_of_info (hother c hc).symm
  have hchild : ∀ m im, fc.info m = some im → fc.parent a ≠ some m → ∀ c ∈ im.children, c ≠ a := by
    rintro m im him hm c hc rfl
    exact hm (wf.parent_iff.2 ⟨im, him, hc⟩)
  by_cases hna : n = a
  · subst hna
    obtain rfl := mem_unique hself hj
    have hchildren := hchild n i hi hn
    have hxa : x ≠ n := hchildren x hchamp.1
    refine .inr ⟨x, hchamp.congr (fun c hc => (hsame c (hchildren c hc)).depthScore_eq), ?_, ?_⟩
    · rw [← (hsame x hxa).heightOf_eq, h.child_height]
    · rw [← (hsame x hxa).deepestOf_eq, h.child_deepest]
  · rw [hother n hna] at hj
    exact (h.others n j hj hna).congr fun c hc => hsame c (hchild n j hj hn c hc)

lemma DeepestPending.step {p : SlotHashKey} (h : DeepestPending fc key a x height)
    (hi : fc.info a = some i) (hchamp : IsChampion (depthScore fc) i.children x)
    (hp : fc.parent a = some p)
    (hset : fc.setInfo a { i with deepestSlot := key, height := height + 1 } = fc₁) :
    DeepestPending fc₁ key p a (height + 1) := by
  have honly := onlyDeepest_setInfo hi key (height + 1)
  rw [hset] at honly
  obtain ⟨hself, hother⟩ := info_of_setInfo hset
  have wf := h.wf
  have hraised : depthScore fc a ≤ depthScore fc₁ a := by
    have hle := h.taken_over i hi hchamp
    have hw := (honly.sameBest a).weight_eq
    unfold depthScore bestScore
    rw [← hw, heightOf_of_info hi, heightOf_of_info hself, Prod.Lex.toLex_le_toLex]
    rcases Nat.lt_or_eq_of_le hle with hlt | heq
    · exact .inl hlt
    · exact .inr ⟨heq, le_refl _⟩
  have hpne : p ≠ a := (wf.up_of_parent hp (Up.refl fc p)).2
  -- nodes other than `a` look the same to their parents
  have hsame : ∀ c, c ≠ a → SameDeepest fc fc₁ c := fun c hc =>
    sameDeepest_of_info (hother c hc).symm
  have hpinfo : ∀ ip, fc₁.info p = some ip → fc.info p = some ip := fun ip hip =>
    hother p hpne ▸ hip
  refine ⟨honly.sameTree.wellFormed wf, (honly.sameTree.parent_eq a).trans hp,
    heightOf_of_info hself, deepestOf_of_info hself, ?_, ?_, ?_⟩
  · intro n j hj hnp
    exact h.set hi hchamp hset hj fun heq => hnp (mem_unique heq hp)
  · intro ip hip hchamp'
    have hip' := hpinfo ip hip
    rcases h.others p ip hip' hpne with ⟨-, hone, -⟩ | ⟨c, hc, hheight, -⟩
    · omega
    · rw [hheight]
      by_cases hca : c = a
      · rw [hca, heightOf_of_info hi]
        have hle := h.taken_over i hi hchamp
        omega
      · have hle := heightOf_le_of_depthScore_le (hchamp'.2 c hc.1)
        rw [← (hsame c hca).heightOf_eq, heightOf_of_info hself] at hle
        exact Nat.succ_le_succ hle
  · intro ip hip hnot
    have hip' := hpinfo ip hip
    have hmem : a ∈ ip.children := by
      obtain ⟨ip', hip'', hmem⟩ := wf.parent_iff.1 hp
      obtain rfl := mem_unique hip'' hip'
      exact hmem
    rcases h.others p ip hip' hpne with ⟨hnil, -⟩ | ⟨c, hc, hheight, hdeepest⟩
    · simp [hnil] at hmem
    · obtain ⟨hc', hca⟩ := hc.of_raised hmem (fun z _ hza => (hsame z hza).depthScore_eq) hnot hraised
      exact .inr ⟨c, hc', by rw [hheight, (hsame c hca).heightOf_eq],
        hdeepest.trans (hsame c hca).deepestOf_eq⟩

lemma propagateDeepest_spec (key : SlotHashKey) (fuel : Nat) (h : DeepestPending fc key a x height)
    (hfuel : a.slot < fuel) :
    ∃ fc', propagateDeepest key fuel fc (some a) x height = some fc' ∧ OnlyDeepest fc fc' ∧
      ∀ n i, fc'.info n = some i → DeepestUpToDate fc' n i.children i.height i.deepestSlot := by
  induction fuel generalizing fc a x height with
  | zero => exact absurd hfuel (Nat.not_lt_zero _)
  | succ fuel ih =>
    obtain ⟨i, hi, -⟩ := h.wf.parent_iff.1 h.child
    obtain ⟨b, hb, hiff⟩ := isDeepestChild_spec h.wf h.child hi
    unfold propagateDeepest
    rw [hb]
    simp only [bind_eq_bind, bind_some]
    by_cases hchamp : IsChampion (depthScore fc) i.children x
    · rw [if_pos (hiff.2 hchamp), hi]
      simp only [bind_some]
      have honly := onlyDeepest_setInfo hi key (height + 1)
      cases hp : i.parent with
      | none =>
        have htop : ∀ n, fc.parent a ≠ some n := by simp [parent, hi, hp]
        have hset := fun n j hj => h.set hi hchamp rfl (n := n) (j := j) hj (htop n)
        rw [hp] at honly hset
        exact ⟨_, by unfold propagateDeepest; rfl, honly, hset⟩
      | some p =>
        have hparent : fc.parent a = some p := parent_eq_some.2 ⟨i, hi, hp⟩
        have hlt := h.wf.slot_lt_of_parent hparent
        have hpending := h.step hi hchamp hparent rfl
        obtain ⟨fc', heq, hrest, hall⟩ := ih hpending (Nat.lt_of_lt_of_le hlt (Nat.le_of_lt_succ hfuel))
        rw [hp] at heq
        exact ⟨fc', heq, honly.trans hrest, hall⟩
    · rw [if_neg (fun hbt => hchamp (hiff.1 hbt))]
      refine ⟨fc, rfl, OnlyDeepest.refl fc, ?_⟩
      intro n j hj
      by_cases hna : n = a
      · subst hna
        obtain rfl := mem_unique hi hj
        exact h.kept i hi hchamp
      · exact h.others n j hj hna

end Nuah.Proofs
