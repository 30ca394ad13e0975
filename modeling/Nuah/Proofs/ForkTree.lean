import Nuah.ForkChoice

/-!
# The tree of a fork choice

Parent and child links agree and slots grow along them, so the ancestors of a node form a
chain and the subtrees of siblings are disjoint.
-/

namespace Nuah.Proofs
open HeaviestSubtreeForkChoice List

variable {k treeRoot : SlotHashKey}

variable {a b c p : SlotHashKey} {root2 : Option SlotHashKey}
  {fc : HeaviestSubtreeForkChoice} {i : ForkInfo}

lemma key_lt_of_slot_lt (h : a.slot < b.slot) : a < b :=
  Prod.Lex.lt_iff.2 (.inl h)

lemma slot_le_of_key_lt (h : a < b) : a.slot ≤ b.slot := by
  rcases Prod.Lex.lt_iff.1 h with hlt | ⟨heq, -⟩
  · exact le_of_lt hlt
  · exact le_of_eq heq

section SetInfo
variable (fc : HeaviestSubtreeForkChoice) (key n : SlotHashKey) (i : ForkInfo)

lemma info_setInfo : (fc.setInfo key i).info n = if key = n then some i else fc.info n := by
  simp [setInfo, info, Std.TreeMap.getElem?_insert]

@[simp] lemma info_setInfo_self : (fc.setInfo key i).info key = some i := by
  simp [info_setInfo]

lemma info_setInfo_of_ne (h : key ≠ n) : (fc.setInfo key i).info n = fc.info n := by
  simp [info_setInfo, h]

@[simp] lemma latestVotes_setInfo : (fc.setInfo key i).latestVotes = fc.latestVotes := rfl

end SetInfo

lemma exists_mapM_eq_some {α β : Type} {f : α → Option β} {P : α → β → Prop} {l : List α}
    (h : ∀ x ∈ l, ∃ y, f x = some y ∧ P x y) : ∃ ys, l.mapM f = some ys ∧ List.Forall₂ P l ys := by
  induction l with
  | nil => exact ⟨[], rfl, List.Forall₂.nil⟩
  | cons x l ih =>
    obtain ⟨y, hy, hp⟩ := h x mem_cons_self
    obtain ⟨ys, hys, hall⟩ := ih fun z hz => h z (mem_cons_of_mem _ hz)
    exact ⟨y :: ys, by simp [mapM_cons, hy, hys], List.Forall₂.cons hp hall⟩

/-- Parent and child links agree, and all nodes hang on the root. -/
structure WellFormed (fc : HeaviestSubtreeForkChoice) : Prop where
  root_mem : ∃ i, fc.info fc.treeRoot = some i ∧ i.parent = none
  parent_mem : ∀ n i, fc.info n = some i → n ≠ fc.treeRoot →
    ∃ p ip, i.parent = some p ∧ fc.info p = some ip ∧ n ∈ ip.children
  child_mem : ∀ n i c, fc.info n = some i → c ∈ i.children →
    ∃ ic, fc.info c = some ic ∧ ic.parent = some n ∧ n.slot < c.slot
  children_sorted : ∀ n i, fc.info n = some i → i.children.Pairwise (· < ·)

/-- `a` is `n` or one of its ancestors. -/
def Up (fc : HeaviestSubtreeForkChoice) : SlotHashKey → SlotHashKey → Prop :=
  Relation.ReflTransGen fun c p => fc.parent c = some p

lemma parent_eq_some : fc.parent c = some p ↔ ∃ i, fc.info c = some i ∧ i.parent = some p := by
  rw [parent, Option.bind_eq_some_iff]

section Tree
variable {fc : HeaviestSubtreeForkChoice} {n m : SlotHashKey}

lemma Up.refl (fc : HeaviestSubtreeForkChoice) (n : SlotHashKey) : Up fc n n := Relation.ReflTransGen.refl

lemma Up.of_parent (h : fc.parent n = some p) : Up fc n p := Relation.ReflTransGen.single h

lemma Up.trans (hab : Up fc a b) (hbc : Up fc b c) : Up fc a c := Relation.ReflTransGen.trans hab hbc

lemma Up.total (ha : Up fc n a) (hb : Up fc n b) : Up fc a b ∨ Up fc b a := by
  refine Relation.ReflTransGen.total_of_right_unique ?_ ha hb
  intro x y z hy hz
  exact Option.mem_unique hy hz

lemma Up.cases_head (h : Up fc n a) : n = a ∨ ∃ p, fc.parent n = some p ∧ Up fc p a :=
  Relation.ReflTransGen.cases_head h

lemma Up.cases_child (h : Up fc n a) : n = a ∨ ∃ c, Up fc n c ∧ fc.parent c = some a :=
  (Relation.ReflTransGen.cases_tail h).imp Eq.symm id

namespace WellFormed

section

variable (wf : WellFormed fc)

include wf

lemma ne_root_of_parent (h : fc.parent c = some p) : c ≠ fc.treeRoot := by
  rintro rfl
  obtain ⟨i, hi, hnone⟩ := wf.root_mem
  simp [parent, hi, hnone] at h

lemma parent_iff : fc.parent c = some p ↔ ∃ ip, fc.info p = some ip ∧ c ∈ ip.children := by
  constructor
  · intro h
    obtain ⟨i, hi, hp⟩ := parent_eq_some.1 h
    obtain ⟨p', ip, hp', hip, hmem⟩ := wf.parent_mem c i hi (wf.ne_root_of_parent h)
    obtain rfl : p' = p := Option.mem_unique hp' hp
    exact ⟨ip, hip, hmem⟩
  · rintro ⟨ip, hip, hmem⟩
    obtain ⟨ic, hic, hparent, -⟩ := wf.child_mem p ip c hip hmem
    exact parent_eq_some.2 ⟨ic, hic, hparent⟩

lemma slot_lt_of_parent (h : fc.parent c = some p) : p.slot < c.slot := by
  obtain ⟨ip, hip, hmem⟩ := wf.parent_iff.1 h
  obtain ⟨_, -, -, hlt⟩ := wf.child_mem p ip c hip hmem
  exact hlt

lemma slot_le_of_up (h : Up fc n a) : a.slot ≤ n.slot := by
  induction h with
  | refl => exact le_refl _
  | tail _ hstep ih => exact (le_of_lt (wf.slot_lt_of_parent hstep)).trans ih

lemma not_up_of_parent (h : fc.parent c = some p) : ¬ Up fc p c := fun hup =>
  absurd (wf.slot_le_of_up hup) (Nat.not_le.2 (wf.slot_lt_of_parent h))

lemma eq_of_up_of_slot_le (h : Up fc n a) (hle : n.slot ≤ a.slot) : n = a := by
  rcases h.cases_head with rfl | ⟨p, hp, hup⟩
  · rfl
  · exact absurd hle (Nat.not_le.2 ((wf.slot_le_of_up hup).trans_lt (wf.slot_lt_of_parent hp)))

lemma up_antisymm (hab : Up fc a b) (hba : Up fc b a) : a = b :=
  wf.eq_of_up_of_slot_le hab (wf.slot_le_of_up hba)

lemma mem_of_up (h : Up fc n a) (hn : fc.info n ≠ none) : fc.info a ≠ none := by
  induction h with
  | refl => exact hn
  | tail _ hstep _ =>
    obtain ⟨ip, hip, -⟩ := wf.parent_iff.1 hstep
    simp [hip]

lemma up_root (h : fc.info n = some i) : Up fc n fc.treeRoot := by
  induction hs : n.slot using Nat.strong_induction_on generalizing n i with
  | _ s ih =>
    by_cases hroot : n = fc.treeRoot
    · rw [hroot]
      exact Up.refl fc _
    · obtain ⟨p, ip, hp, hip, -⟩ := wf.parent_mem n i h hroot
      have hparent : fc.parent n = some p := parent_eq_some.2 ⟨i, h, hp⟩
      have hlt := wf.slot_lt_of_parent hparent
      exact (Up.of_parent hparent).trans (ih p.slot (hs ▸ hlt) hip rfl)

lemma siblings_disjoint (hb : fc.parent b = some m) (hc : fc.parent c = some m)
    (hnb : Up fc n b) (hnc : Up fc n c) : b = c := by
  have key : ∀ x y, fc.parent x = some m → fc.parent y = some m → Up fc x y → x = y := by
    intro x y hx hy hup
    rcases hup.cases_head with rfl | ⟨p, hp, hpy⟩
    · rfl
    · obtain rfl : p = m := Option.mem_unique hp hx
      exact absurd hpy (wf.not_up_of_parent hy)
  rcases hnb.total hnc with h | h
  · exact key b c hb hc h
  · exact (key c b hc hb h).symm

lemma up_of_parent (hp : fc.parent n = some p) (hup : Up fc p a) : Up fc n a ∧ a ≠ n := by
  refine ⟨(Up.of_parent hp).trans hup, ?_⟩
  rintro rfl
  exact wf.not_up_of_parent hp hup

lemma ancestors_pairwise (fuel : Nat) :
    (fc.ancestors fuel n).Pairwise (fun a b => Up fc a b ∧ a ≠ b) ∧
      ∀ a ∈ fc.ancestors fuel n, Up fc n a ∧ a ≠ n := by
  induction fuel generalizing n with
  | zero => simp [ancestors]
  | succ fuel ih =>
    unfold ancestors
    split
    · simp
    · rename_i p hp
      obtain ⟨hpw, hall⟩ := ih (n := p)
      refine ⟨pairwise_cons.2 ⟨fun a ha => ⟨(hall a ha).1, (hall a ha).2.symm⟩, hpw⟩, ?_⟩
      exact forall_mem_cons.2 ⟨wf.up_of_parent hp (Up.refl fc p), fun a ha =>
        wf.up_of_parent hp (hall a ha).1⟩

lemma mem_ancestors (fuel : Nat) (hfuel : n.slot ≤ fuel) (hup : Up fc n a) (hne : a ≠ n) :
    a ∈ fc.ancestors fuel n := by
  induction fuel generalizing n with
  | zero => exact absurd (wf.eq_of_up_of_slot_le hup (hfuel.trans (Nat.zero_le _))).symm hne
  | succ fuel ih =>
    rcases hup.cases_head with rfl | ⟨p, hp, hup'⟩
    · exact absurd rfl hne
    · have hlt := wf.slot_lt_of_parent hp
      simp only [ancestors, hp, mem_cons]
      by_cases hap : a = p
      · exact .inl hap
      · exact .inr (ih (Nat.le_of_lt_succ (hlt.trans_le hfuel)) hup' hap)

lemma mem_ancestorIterator : a ∈ fc.ancestorIterator n ↔ Up fc n a ∧ a ≠ n :=
  ⟨(wf.ancestors_pairwise n.slot).2 a, fun h => wf.mem_ancestors n.slot (le_refl _) h.1 h.2⟩

lemma parent_mem_ancestorIterator (hup : Up fc n c) (hp : fc.parent c = some p) :
    p ∈ fc.ancestorIterator n := by
  refine wf.mem_ancestorIterator.2 ⟨hup.trans (Up.of_parent hp), ?_⟩
  rintro rfl
  exact wf.not_up_of_parent hp hup

end

/-- What a traversal from `k` that skips the subtree at `root2` collects. -/
def Reaches (fc : HeaviestSubtreeForkChoice) (root2 : Option SlotHashKey) (k n : SlotHashKey) : Prop :=
  Up fc n k ∧ ∀ r, root2 = some r → ¬ (Up fc n r ∧ Up fc r k)

lemma reaches_cons (wf : WellFormed fc) (hk : some k ≠ root2) :
    Reaches fc root2 k n ↔ n = k ∨ ∃ c, fc.parent c = some k ∧ Reaches fc root2 c n := by
  constructor
  · rintro ⟨hup, hskip⟩
    rcases hup.cases_child with rfl | ⟨c, hnc, hc⟩
    · exact .inl rfl
    · refine .inr ⟨c, hc, hnc, ?_⟩
      rintro r hr ⟨hnr, hrc⟩
      exact hskip r hr ⟨hnr, hrc.trans (Up.of_parent hc)⟩
  · rintro (rfl | ⟨c, hc, hnc, hskip⟩)
    · refine ⟨Up.refl fc n, ?_⟩
      rintro r rfl ⟨hnr, hrn⟩
      exact hk (congrArg some (wf.up_antisymm hnr hrn))
    · refine ⟨hnc.trans (Up.of_parent hc), ?_⟩
      rintro r hr ⟨hnr, hrk⟩
      rcases hrk.cases_child with rfl | ⟨c', hrc', hc'⟩
      · exact hk hr.symm
      · obtain rfl := wf.siblings_disjoint hc hc' hnc (hnr.trans hrc')
        exact hskip r hr ⟨hnr, hrc'⟩

/-- The nodes at or after `k` in key order; there are more of them than the depth below `k`. -/
def nodesFrom (fc : HeaviestSubtreeForkChoice) (k : SlotHashKey) : List SlotHashKey :=
  fc.forkInfos.keys.filter fun n => decide (k ≤ n)

section

variable (wf : WellFormed fc)

include wf

lemma nodesFrom_lt (hk : fc.info k = some i)
    (hc : fc.parent c = some k) : (nodesFrom fc c).length < (nodesFrom fc k).length := by
  have hkc : k < c := key_lt_of_slot_lt (wf.slot_lt_of_parent hc)
  have hmem : k ∈ fc.forkInfos.keys := by
    rw [Std.TreeMap.mem_keys, Std.TreeMap.mem_iff_isSome_getElem?]
    unfold info at hk
    simp [hk]
  have hsub : nodesFrom fc c = (nodesFrom fc k).filter (fun n => decide (c ≤ n)) := by
    unfold nodesFrom
    rw [filter_filter]
    apply filter_congr
    intro n _
    by_cases hcn : c ≤ n
    · simp [hcn, hkc.le.trans hcn]
    · simp [hcn]
  rw [hsub]
  apply length_filter_lt_length_iff_exists.2
  exact ⟨k, mem_filter.2 ⟨hmem, by simp⟩, by simpa using hkc⟩

lemma flatten_reaches {cs : List SlotHashKey} {ls : List (List SlotHashKey)}
    (hnodup : cs.Nodup) (hchild : ∀ c ∈ cs, fc.parent c = some k)
    (h : List.Forall₂ (fun c l => l.Nodup ∧ ∀ n, n ∈ l ↔ Reaches fc root2 c n) cs ls) :
    ls.flatten.Nodup ∧ ∀ n, n ∈ ls.flatten ↔ ∃ c ∈ cs, Reaches fc root2 c n := by
  induction h with
  | nil => simp
  | @cons c l cs ls hcl _ ih =>
    obtain ⟨hc, hcs⟩ := nodup_cons.1 hnodup
    obtain ⟨hflat, hmem⟩ := ih hcs fun c' hc' => hchild c' (mem_cons_of_mem _ hc')
    rw [flatten_cons]
    refine ⟨nodup_append'.2 ⟨hcl.1, hflat, ?_⟩, ?_⟩
    · intro n hn hn'
      obtain ⟨c', hc', hreach⟩ := (hmem n).1 hn'
      obtain rfl := wf.siblings_disjoint (hchild c mem_cons_self)
        (hchild c' (mem_cons_of_mem _ hc')) ((hcl.2 n).1 hn).1 hreach.1
      exact hc hc'
    · intro n
      simp [hcl.2 n, hmem n]

variable (root2 : Option SlotHashKey)

lemma reachable_spec (fuel : Nat)
    (hk : fc.info k = some i) (hfuel : (nodesFrom fc k).length < fuel) :
    ∃ l, fc.reachable root2 fuel k = some l ∧ l.Nodup ∧ ∀ n, n ∈ l ↔ Reaches fc root2 k n := by
  induction fuel generalizing k i with
  | zero => omega
  | succ fuel ih =>
    unfold reachable
    by_cases hroot : some k = root2
    · rw [if_pos hroot]
      refine ⟨[], rfl, nodup_nil, ?_⟩
      intro n
      simp only [not_mem_nil, false_iff]
      rintro ⟨hup, hskip⟩
      exact hskip k hroot.symm ⟨hup, Up.refl fc k⟩
    · have hchild : ∀ c ∈ i.children, fc.parent c = some k := fun c hc => wf.parent_iff.2 ⟨i, hk, hc⟩
      have hbelow : ∀ c ∈ i.children, ∃ l, fc.reachable root2 fuel c = some l ∧
          (l.Nodup ∧ ∀ n, n ∈ l ↔ Reaches fc root2 c n) := by
        intro c hc
        obtain ⟨ic, hic, -⟩ := wf.child_mem k i c hk hc
        have hlt := wf.nodesFrom_lt hk (hchild c hc)
        exact ih hic (by omega)
      obtain ⟨ls, hls, hall⟩ := exists_mapM_eq_some hbelow
      have hsorted := wf.children_sorted k i hk
      have hnodup : i.children.Nodup := hsorted.imp fun hlt => ne_of_lt hlt
      obtain ⟨hflat, hmem⟩ := wf.flatten_reaches hnodup hchild hall
      refine ⟨k :: ls.flatten, ?_, ?_, ?_⟩
      · simp [hroot, children, hk, hls]
      · refine nodup_cons.2 ⟨?_, hflat⟩
        intro hkmem
        obtain ⟨c, hc, hreach⟩ := (hmem k).1 hkmem
        exact absurd (wf.slot_le_of_up hreach.1)
          (Nat.not_le.2 (wf.slot_lt_of_parent (hchild c hc)))
      · intro n
        rw [mem_cons, hmem n, wf.reaches_cons hroot]
        refine or_congr_right ⟨?_, ?_⟩
        · rintro ⟨c, hc, hreach⟩
          exact ⟨c, hchild c hc, hreach⟩
        · rintro ⟨c, hc, hreach⟩
          obtain ⟨ip, hip, hmem'⟩ := wf.parent_iff.1 hc
          obtain rfl := Option.mem_unique hip hk
          exact ⟨c, hmem', hreach⟩

lemma reachable_all (hk : fc.info k = some i) :
    ∃ l, fc.reachable root2 (fc.forkInfos.size + 1) k = some l ∧ l.Nodup ∧
      ∀ n, n ∈ l ↔ Reaches fc root2 k n := by
  apply wf.reachable_spec root2 _ hk
  rw [← Std.TreeMap.length_keys]
  exact Nat.lt_succ_of_le (length_filter_le _ _)

end

end WellFormed

end Tree

def rootLeaf (treeRoot : SlotHashKey) : ForkInfo := ⟨0, 0, 1, treeRoot, treeRoot, none, [], none, true⟩

lemma new_eq (treeRoot : SlotHashKey) :
    new treeRoot = some (setInfo ⟨∅, ∅, treeRoot⟩ treeRoot (rootLeaf treeRoot)) := by
  simp [new, addNewLeafSlot, containsBlock, info, rootLeaf]

section

variable (h : new treeRoot = some fc)

include h

lemma info_new (n : SlotHashKey) :
    fc.info n = if treeRoot = n then some (rootLeaf treeRoot) else none := by
  rw [new_eq] at h
  cases h
  rw [info_setInfo]
  simp [info]

lemma info_new_eq_some {n : SlotHashKey} (hi : fc.info n = some i) :
    n = treeRoot ∧ i = rootLeaf treeRoot := by
  rw [info_new h n] at hi
  split at hi
  · rename_i heq
    exact ⟨heq.symm, (Option.some.inj hi).symm⟩
  · simp at hi

lemma treeRoot_new : fc.treeRoot = treeRoot := by
  rw [new_eq] at h
  cases h
  rfl

lemma new_wellFormed : WellFormed fc := by
  refine ⟨?_, ?_, ?_, ?_⟩
  · refine ⟨rootLeaf treeRoot, ?_, rfl⟩
    rw [treeRoot_new h, info_new h, if_pos rfl]
  · intro n i hi hne
    exact absurd ((info_new_eq_some h hi).1.trans (treeRoot_new h).symm) hne
  · intro n i c hi hc
    rw [(info_new_eq_some h hi).2] at hc
    cases hc
  · intro n i hi
    rw [(info_new_eq_some h hi).2]
    exact List.Pairwise.nil

end

end Nuah.Proofs
