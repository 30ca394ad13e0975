import Nuah.Proofs.NewLeaf

/-!
# Merging trees

A merge adds the nodes of the other tree leaf by leaf in key order, so that every parent is
there before its children, and then the votes of the other tree.
-/

namespace Nuah.Proofs
open HeaviestSubtreeForkChoice

variable {fc fc' other : HeaviestSubtreeForkChoice} {key mergeLeaf : SlotHashKey}

variable {p : SlotHashKey} {done : List (SlotHashKey × ForkInfo)} {i : ForkInfo} {env : VoteStakes}
  {otherVotes : List (Pubkey × SlotHashKey)}

/-- What the caller of `merge` has to see to. -/
structure Mergeable (fc other : HeaviestSubtreeForkChoice) (mergeLeaf : SlotHashKey) : Prop where
  leaf_mem : fc.info mergeLeaf ≠ none
  disjoint : ∀ n, other.info n ≠ none → fc.info n = none
  slot_lt : ∀ n, other.info n ≠ none → mergeLeaf.slot < n.slot

def LeafAdded (fc fc' : HeaviestSubtreeForkChoice) : Prop :=
  ∃ key p ip linked, Linked fc key p ip linked ∧ OnlyDerived linked fc'

structure PartlyMerged (fc : HeaviestSubtreeForkChoice) (done : List (SlotHashKey × ForkInfo))
    (fc' : HeaviestSubtreeForkChoice) : Prop where
  sound : Sound fc'
  added : Relation.ReflTransGen LeafAdded fc fc'
  info_iff : ∀ n, fc'.info n ≠ none ↔ fc.info n ≠ none ∨ n ∈ done.map Prod.fst
  latestVotes_eq : fc'.latestVotes = fc.latestVotes
  votesCounted : ∀ env, VotesCounted env fc →
    (∀ n ∈ done.map Prod.fst, ∀ pubkey : Pubkey, fc.latestVotes[pubkey]? ≠ some n) → VotesCounted env fc'

lemma Linked.info_ne_none_iff {ip : ForkInfo} (h : Linked fc key p ip fc') (n : SlotHashKey) :
    fc'.info n ≠ none ↔ fc.info n ≠ none ∨ n = key := by
  constructor
  · intro hsome
    obtain ⟨i', hi'⟩ := Option.ne_none_iff_exists'.1 hsome
    rcases h.info_cases hi' with ⟨heq, -⟩ | ⟨i, hi, -⟩
    · exact .inr heq
    · exact .inl (by simp [hi])
  · rintro (hsome | rfl)
    · obtain ⟨i, hi⟩ := Option.ne_none_iff_exists'.1 hsome
      simp [h.info_some hi]
    · simp [h.info_key]

lemma PartlyMerged.step (h : PartlyMerged fc done fc') (i : ForkInfo) (hfresh : fc.info key = none)
    (hnew : key ∉ done.map Prod.fst) (hp : fc'.info p ≠ none) (hlt : p.slot < key.slot) :
    ∃ fc'', fc'.addNewLeafSlot key (some p) = some fc'' ∧ PartlyMerged fc (done ++ [(key, i)]) fc'' := by
  obtain ⟨ip, hip⟩ := Option.ne_none_iff_exists'.1 hp
  have hkey : fc'.info key = none := by
    by_contra hcon
    rcases (h.info_iff key).1 hcon with hin | hin
    · exact hin hfresh
    · exact hnew hin
  obtain ⟨linked, fc'', hlinked, heq, hsound, hderived⟩ := addNewLeafSlot_sound h.sound hkey hip hlt
  refine ⟨fc'', heq, hsound, h.added.tail ⟨key, p, ip, linked, hlinked, hderived⟩, ?_, ?_, ?_⟩
  · intro n
    rw [hderived.toSameTree.info_ne_none_iff, hlinked.info_ne_none_iff, h.info_iff]
    simp [or_assoc]
  · rw [hderived.latestVotes_eq, hlinked.latestVotes_eq, h.latestVotes_eq]
  · intro env hcounted hunvoted
    have hbefore := h.votesCounted env hcounted fun n hn => hunvoted n (by simp [hn])
    refine hderived.votesCounted (hlinked.votesCounted hbefore ?_)
    rw [h.latestVotes_eq]
    exact hunvoted key (by simp)

lemma mem_toList_iff_info {n : SlotHashKey} :
    (n, i) ∈ fc.forkInfos.toList ↔ fc.info n = some i := by
  rw [Std.TreeMap.mem_toList_iff_getElem?_eq_some, info]

lemma Mergeable.parent_mem {rest : List (SlotHashKey × ForkInfo)}
    (h : Mergeable fc other mergeLeaf) (wf : WellFormed other)
    (hlist : done ++ (key, i) :: rest = other.forkInfos.toList)
    (hdone : ∀ n, fc'.info n ≠ none ↔ fc.info n ≠ none ∨ n ∈ done.map Prod.fst) :
    fc'.info (i.parent.getD mergeLeaf) ≠ none ∧ (i.parent.getD mergeLeaf).slot < key.slot := by
  have hi : other.info key = some i := mem_toList_iff_info.1 (by rw [← hlist]; simp)
  cases hparent : i.parent with
  | none =>
    exact ⟨(hdone mergeLeaf).2 (.inl h.leaf_mem), h.slot_lt key (by simp [hi])⟩
  | some q =>
    have hq : other.parent key = some q := parent_eq_some.2 ⟨i, hi, hparent⟩
    have hlt := wf.slot_lt_of_parent hq
    refine ⟨(hdone q).2 (.inr ?_), hlt⟩
    obtain ⟨iq, hiq, -⟩ := wf.parent_iff.1 hq
    have hin : (q, iq) ∈ done ++ (key, i) :: rest := by
      rw [hlist]
      exact mem_toList_iff_info.2 hiq
    have hsorted : (done ++ (key, i) :: rest).Pairwise (fun a b => a.1 < b.1) := by
      rw [hlist]
      exact Std.TreeMap.ordered_keys_toList.imp fun h => compare_lt_iff_lt.1 h
    rcases List.mem_append.1 hin with hin | hin
    · exact List.mem_map_of_mem hin
    · have hkq : key < q ∨ key = q := by
        rcases List.mem_cons.1 hin with heq | hin
        · exact .inr (Prod.mk.inj heq).1.symm
        · exact .inl ((List.pairwise_cons.1 (List.pairwise_append.1 hsorted).2.1).1 _ hin)
      rcases hkq with hkq | rfl
      · exact absurd (slot_le_of_key_lt hkq) (Nat.not_le.2 hlt)
      · exact absurd hlt (lt_irrefl _)

lemma foldlM_merged {M : List (SlotHashKey × ForkInfo) → HeaviestSubtreeForkChoice → Prop}
    (hinfo : ∀ done fc', M done fc' → ∀ n, fc'.info n ≠ none ↔ fc.info n ≠ none ∨ n ∈ done.map Prod.fst)
    (hstep : ∀ done fc' key p i, M done fc' → fc.info key = none → key ∉ done.map Prod.fst → fc'.info p ≠ none → p.slot < key.slot → ∃ fc'', fc'.addNewLeafSlot key (some p) = some fc'' ∧ M (done ++ [(key, i)]) fc'')
    (h : Mergeable fc other mergeLeaf) (wf : WellFormed other)
    (rest done : List (SlotHashKey × ForkInfo)) (hlist : done ++ rest = other.forkInfos.toList)
    (hdone : M done fc') :
    ∃ merged, rest.foldlM
        (fun fc entry => fc.addNewLeafSlot entry.1 (some (entry.2.parent.getD mergeLeaf))) fc' = some merged ∧
      M other.forkInfos.toList merged := by
  induction rest generalizing done fc' with
  | nil =>
    rw [List.append_nil] at hlist
    exact ⟨fc', rfl, hlist ▸ hdone⟩
  | cons entry rest ih =>
    obtain ⟨key, i⟩ := entry
    obtain ⟨hp, hlt⟩ := h.parent_mem wf hlist (hinfo done fc' hdone)
    have hi : other.info key = some i := mem_toList_iff_info.1 (by rw [← hlist]; simp)
    have hnodup : ((done ++ (key, i) :: rest).map Prod.fst).Nodup := by
      rw [hlist, Std.TreeMap.map_fst_toList_eq_keys]
      exact Std.TreeMap.nodup_keys
    have hnew : key ∉ done.map Prod.fst := by
      rw [List.map_append, List.map_cons] at hnodup
      exact fun hin => (List.nodup_append.1 hnodup).2.2 key hin key List.mem_cons_self rfl
    obtain ⟨fc'', heq, hnext⟩ := hstep done fc' key _ i hdone (h.disjoint key (by simp [hi])) hnew hp hlt
    obtain ⟨merged, hmerged, hall⟩ := ih (done ++ [(key, i)]) (by simpa using hlist) hnext
    exact ⟨merged, by simp [List.foldlM_cons, heq, hmerged], hall⟩

lemma merge_eq (hsound : Sound fc) (hother : WellFormed other) (h : Mergeable fc other mergeLeaf)
    (env : VoteStakes) (otherVotes : List (Pubkey × SlotHashKey)) :
    ∃ merged, PartlyMerged fc other.forkInfos.toList merged ∧
      fc.merge other mergeLeaf env otherVotes = (merged.addVotes env otherVotes).map Prod.fst := by
  have hstart : PartlyMerged fc [] fc := ⟨hsound, .refl, by simp, rfl, fun _ hcounted _ => hcounted⟩
  obtain ⟨merged, hmerged, hall⟩ := foldlM_merged (fun _ _ hdone => hdone.info_iff)
    (fun _ _ _ _ i hdone hfresh hnew hp hlt => hdone.step i hfresh hnew hp hlt) h hother
    other.forkInfos.toList [] rfl hstart
  refine ⟨merged, hall, ?_⟩
  have hcontains : fc.containsBlock mergeLeaf = true := by
    simpa [containsBlock, Option.isSome_iff_ne_none] using h.leaf_mem
  rw [merge, if_pos hcontains, hmerged]
  cases hvotes : merged.addVotes env otherVotes with
  | none => simp [hvotes]
  | some result => simp [hvotes]

theorem merge_sound (hsound : Sound fc) (hother : WellFormed other)
    (h : Mergeable fc other mergeLeaf) (hok : fc.merge other mergeLeaf env otherVotes = some fc') :
    Sound fc' ∧ (VotesCounted env fc → (∀ n, other.info n ≠ none →
      ∀ pubkey : Pubkey, fc.latestVotes[pubkey]? ≠ some n) → VotesCounted env fc') := by
  obtain ⟨merged, hmerged, heq⟩ := merge_eq hsound hother h env otherVotes
  rw [heq, Option.map_eq_some_iff] at hok
  obtain ⟨⟨fc'', best⟩, hvotes, rfl⟩ := hok
  obtain ⟨hsound', -, hcounted'⟩ := addVotes_preserves hmerged.sound hvotes
  refine ⟨hsound', fun hcounted hunvoted => hcounted' (hmerged.votesCounted env hcounted ?_)⟩
  intro n hn
  obtain ⟨⟨n, i⟩, hentry, rfl⟩ := List.mem_map.1 hn
  exact hunvoted n (by simp [mem_toList_iff_info.1 hentry])

/-- A merge does not panic. -/
theorem merge_total (hsound : Sound fc) (hcounted : VotesCounted env fc)
    (hother : WellFormed other) (h : Mergeable fc other mergeLeaf)
    (hunvoted : ∀ n, other.info n ≠ none → ∀ pubkey : Pubkey, fc.latestVotes[pubkey]? ≠ some n)
    (hnodup : (otherVotes.map Prod.fst).Nodup) :
    ∃ fc', fc.merge other mergeLeaf env otherVotes = some fc' := by
  obtain ⟨merged, hmerged, heq⟩ := merge_eq hsound hother h env otherVotes
  have hcounted' : VotesCounted env merged := by
    refine hmerged.votesCounted env hcounted ?_
    intro n hn
    obtain ⟨⟨n, i⟩, hentry, rfl⟩ := List.mem_map.1 hn
    exact hunvoted n (by simp [mem_toList_iff_info.1 hentry])
  obtain ⟨fc', best, hvotes⟩ := addVotes_total hmerged.sound hcounted' hnodup
  exact ⟨fc', by rw [heq, hvotes]; rfl⟩

end Nuah.Proofs
