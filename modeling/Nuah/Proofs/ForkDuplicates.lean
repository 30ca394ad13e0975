import Nuah.Proofs.ForkRuns

/-!
# Duplicate confirmation against invalid marks

Confirming a node confirms its ancestors but clears marks only in its own subtree. Marks that
other branches inherited from one of those ancestors stay behind.
-/

namespace Nuah.Proofs
open HeaviestSubtreeForkChoice Option

variable {fc fc' : HeaviestSubtreeForkChoice} {n k : SlotHashKey} {history : List ForkOperation}

variable {a key : SlotHashKey} {i : ForkInfo}

def upwards (fc : HeaviestSubtreeForkChoice) (n : SlotHashKey) : List SlotHashKey :=
  n :: fc.ancestorIterator n

/-- A node on another branch than `k` is marked because of a common ancestor. -/
def strandsMark (fc : HeaviestSubtreeForkChoice) (k : SlotHashKey) : Bool :=
  fc.forkInfos.keys.any (fun n => decide (k ∉ upwards fc n) && decide (n ∉ upwards fc k) &&
    (upwards fc n).any (fun a => decide (a ∈ upwards fc k) &&
      decide (fc.latestInvalidAncestor n = some a.slot)))

/-- The tree is not cut, so ancestors do not disappear. -/
def keepsTree : ForkOperation → Bool
  | .setTreeRoot _ => false
  | .keepSplit _ => false
  | .takeSplit _ => false
  | _ => true

/-- No confirmation leaves marks behind. -/
def strandsNothing (fc : HeaviestSubtreeForkChoice) (op : ForkOperation) : Bool :=
  keepsTree op && (match op with
    | .markForkValidCandidate k => !strandsMark fc k
    | _ => true)

/-- Every mark is that of an ancestor that was marked invalid and is not confirmed. -/
def MarksJustified (history : List ForkOperation) (fc : HeaviestSubtreeForkChoice) : Prop :=
  ∀ n s, fc.latestInvalidAncestor n = some s → ∃ a, Up fc n a ∧ a.slot = s ∧
    .markForkInvalidCandidate a ∈ history ∧ fc.isDuplicateConfirmed a = some false

lemma mem_upwards (wf : WellFormed fc) : a ∈ upwards fc n ↔ Up fc n a := by
  rw [upwards, List.mem_cons, wf.mem_ancestorIterator]
  constructor
  · rintro (rfl | ⟨hup, -⟩)
    · exact Up.refl fc a
    · exact hup
  · intro hup
    by_cases han : a = n
    · exact .inl han
    · exact .inr ⟨hup, han⟩

lemma latestInvalidAncestor_of_info (hi : fc.info n = some i) :
    fc.latestInvalidAncestor n = i.latestInvalidAncestor := by
  simp [latestInvalidAncestor, hi]

lemma info_of_latestInvalidAncestor {s : Slot} (h : fc.latestInvalidAncestor n = some s) :
    ∃ i, fc.info n = some i ∧ i.latestInvalidAncestor = some s := by
  rw [latestInvalidAncestor, bind_eq_some_iff] at h
  exact h

lemma strandsMark_iff (wf : WellFormed fc) :
    strandsMark fc k = true ↔ ∃ n a, ¬ Up fc n k ∧ ¬ Up fc k n ∧ Up fc n a ∧ Up fc k a ∧
      fc.latestInvalidAncestor n = some a.slot := by
  simp only [strandsMark, List.any_eq_true, Bool.and_eq_true, decide_eq_true_eq, mem_upwards wf]
  constructor
  · rintro ⟨n, -, ⟨hnk, hkn⟩, a, hna, hka, hmark⟩
    exact ⟨n, a, hnk, hkn, hna, hka, hmark⟩
  · rintro ⟨n, a, hnk, hkn, hna, hka, hmark⟩
    refine ⟨n, ?_, ⟨hnk, hkn⟩, a, hna, hka, hmark⟩
    obtain ⟨i, hi, -⟩ := info_of_latestInvalidAncestor hmark
    rw [Std.TreeMap.mem_keys, Std.TreeMap.mem_iff_isSome_getElem?]
    unfold info at hi
    simp [hi]

lemma MarksJustified.mono (h : MarksJustified history fc) (op : ForkOperation) :
    MarksJustified (op :: history) fc := by
  intro n s hs
  obtain ⟨a, hup, hslot, hmarked, hconf⟩ := h n s hs
  exact ⟨a, hup, hslot, List.mem_cons_of_mem _ hmarked, hconf⟩

lemma isDuplicateConfirmed_eq_some {b : Bool} :
    fc.isDuplicateConfirmed a = some b ↔ ∃ i, fc.info a = some i ∧ i.isDuplicateConfirmed = b := by
  rw [isDuplicateConfirmed, map_eq_some_iff]

lemma SameForks.marksJustified (h : SameForks fc fc') (hj : MarksJustified history fc) :
    MarksJustified history fc' := by
  intro n s hs
  obtain ⟨i', hi', hmark'⟩ := info_of_latestInvalidAncestor hs
  obtain ⟨i, hi, -⟩ := h.info_back hi'
  rw [(h.marks_eq n i hi i' hi').2] at hmark'
  obtain ⟨a, hup, hslot, hmarked, hconf⟩ := hj n s ((latestInvalidAncestor_of_info hi).trans hmark')
  obtain ⟨ia, hia, hfalse⟩ := isDuplicateConfirmed_eq_some.1 hconf
  obtain ⟨ia', hia', -⟩ := h.info_some a ia hia
  refine ⟨a, h.toSameTree.up_eq ▸ hup, hslot, hmarked, isDuplicateConfirmed_eq_some.2 ⟨ia', hia', ?_⟩⟩
  rw [(h.marks_eq a ia hia ia' hia').1, hfalse]

lemma Linked.marksJustified {p : SlotHashKey} {ip : ForkInfo} (h : Linked fc key p ip fc')
    (hj : MarksJustified history fc) :
    MarksJustified history fc' := by
  have hlift : ∀ n s, fc.latestInvalidAncestor n = some s → ∃ a, Up fc' n a ∧ a.slot = s ∧
      .markForkInvalidCandidate a ∈ history ∧ fc'.isDuplicateConfirmed a = some false := by
    intro n s hs
    obtain ⟨a, hup, hslot, hmarked, hconf⟩ := hj n s hs
    obtain ⟨ia, hia, hfalse⟩ := isDuplicateConfirmed_eq_some.1 hconf
    exact ⟨a, h.up hup, hslot, hmarked, isDuplicateConfirmed_eq_some.2 ⟨_, h.info_some hia, hfalse⟩⟩
  intro n s hs
  obtain ⟨i', hi', hmark'⟩ := info_of_latestInvalidAncestor hs
  rcases h.info_cases hi' with ⟨rfl, rfl⟩ | ⟨i, hi, rfl⟩
  · obtain ⟨a, hup, hrest⟩ := hlift p s ((latestInvalidAncestor_of_info h.parent_info).trans hmark')
    exact ⟨a, (Up.of_parent h.parent_key).trans hup, hrest⟩
  · exact hlift n s ((latestInvalidAncestor_of_info hi).trans hmark')

lemma LeafAdded.marksJustified (h : LeafAdded fc fc') (hj : MarksJustified history fc) :
    MarksJustified history fc' := by
  obtain ⟨key, p, ip, linked, hlinked, hderived⟩ := h
  exact hderived.toSameForks.marksJustified (hlinked.marksJustified hj)

lemma marksJustified_of_leavesAdded (h : Relation.ReflTransGen LeafAdded fc fc')
    (hj : MarksJustified history fc) :
    MarksJustified history fc' := by
  induction h with
  | refl => exact hj
  | tail _ hleaf ih => exact hleaf.marksJustified ih

lemma MarkedInvalid.marksJustified (h : MarkedInvalid fc k fc')
    (hk : fc.isDuplicateConfirmed k = some false) (hj : MarksJustified history fc) :
    MarksJustified (.markForkInvalidCandidate k :: history) fc' := by
  have hconf : ∀ a, fc.isDuplicateConfirmed a = some false → fc'.isDuplicateConfirmed a = some false := by
    intro a ha
    obtain ⟨ia, hia, hfalse⟩ := isDuplicateConfirmed_eq_some.1 ha
    obtain ⟨ia', hia', -⟩ := h.info_some a ia hia
    exact isDuplicateConfirmed_eq_some.2 ⟨ia', hia', (h.confirmed_eq a ia hia ia' hia').trans hfalse⟩
  intro n s hs
  obtain ⟨i', hi', hmark'⟩ := info_of_latestInvalidAncestor hs
  obtain ⟨i, hi, -⟩ := h.info_back hi'
  have hcases : (Up fc n k ∧ s = k.slot) ∨ i.latestInvalidAncestor = some s := by
    by_cases hnk : Up fc n k
    · rw [h.mark_below n i hi i' hi' hnk] at hmark'
      obtain ⟨s', hs', -, hcases⟩ := slot_le_raiseMark k.slot i.latestInvalidAncestor
      obtain rfl := mem_unique hs' hmark'
      exact hcases.imp (fun heq => ⟨hnk, heq⟩) id
    · rw [h.mark_other n i hi i' hi' hnk] at hmark'
      exact .inr hmark'
  rw [h.toSameTree.up_eq]
  rcases hcases with ⟨hnk, rfl⟩ | hold
  · exact ⟨k, hnk, rfl, List.mem_cons_self, hconf k hk⟩
  · obtain ⟨a, hup, hslot, hmarked, hfalse⟩ := hj n s ((latestInvalidAncestor_of_info hi).trans hold)
    exact ⟨a, hup, hslot, List.mem_cons_of_mem _ hmarked, hconf a hfalse⟩

lemma MarkedValid.marksJustified (h : MarkedValid fc k fc') (wf : WellFormed fc)
    (hstrand : strandsMark fc k = false) (hj : MarksJustified history fc) :
    MarksJustified history fc' := by
  intro n s hs
  obtain ⟨i', hi', hmark'⟩ := info_of_latestInvalidAncestor hs
  obtain ⟨i, hi, -⟩ := h.info_back hi'
  have hkn : ¬ Up fc k n := by
    intro hkn
    simp [h.mark_above n i hi i' hi' hkn] at hmark'
  have hold : i.latestInvalidAncestor = some s ∧ (Up fc n k → k.slot < s) := by
    by_cases hnk : Up fc n k
    · rw [h.mark_below n i hi i' hi' hnk (fun heq => hkn (heq ▸ Up.refl fc n))] at hmark'
      obtain ⟨hmark, hlt⟩ := clearMark_eq_some.1 hmark'
      exact ⟨hmark, fun _ => hlt⟩
    · rw [h.mark_other n i hi i' hi' hnk hkn] at hmark'
      exact ⟨hmark', fun hcon => absurd hcon hnk⟩
  have hmark := (latestInvalidAncestor_of_info hi).trans hold.1
  obtain ⟨a, hup, hslot, hmarked, hconf⟩ := hj n s hmark
  have hka : ¬ Up fc k a := by
    intro hka
    by_cases hnk : Up fc n k
    · have hlt := hold.2 hnk
      rw [← hslot] at hlt
      exact absurd (wf.slot_le_of_up hka) (Nat.not_le.2 hlt)
    · have htrue := (strandsMark_iff wf).2 ⟨n, a, hnk, hkn, hup, hka, hslot ▸ hmark⟩
      simp [hstrand] at htrue
  obtain ⟨ia, hia, hfalse⟩ := isDuplicateConfirmed_eq_some.1 hconf
  obtain ⟨ia', hia', -⟩ := h.info_some a ia hia
  refine ⟨a, h.toSameTree.up_eq ▸ hup, hslot, hmarked, isDuplicateConfirmed_eq_some.2 ⟨ia', hia', ?_⟩⟩
  rw [← Bool.not_eq_true, h.confirmed_iff a ia hia ia' hia', hfalse]
  simp [hka]

lemma MarkedValid.not_marksJustified (h : MarkedValid fc k fc') (wf : WellFormed fc)
    (hstrand : strandsMark fc k = true) :
    ¬ MarksJustified history fc' := by
  intro hj
  obtain ⟨n, a, hnk, hkn, hna, hka, hmark⟩ := (strandsMark_iff wf).1 hstrand
  obtain ⟨i, hi, hlia⟩ := info_of_latestInvalidAncestor hmark
  obtain ⟨i', hi', -⟩ := h.info_some n i hi
  obtain ⟨b, hnb, hslot, -, hconf⟩ := hj n a.slot (by
    rw [latestInvalidAncestor_of_info hi', h.mark_other n i hi i' hi' hnk hkn, hlia])
  rw [h.toSameTree.up_eq] at hnb
  have hab : a = b := by
    rcases hna.total hnb with hab | hba
    · exact wf.eq_of_up_of_slot_le hab hslot.ge
    · exact (wf.eq_of_up_of_slot_le hba hslot.le).symm
  subst hab
  obtain ⟨ia', hia', hfalse⟩ := isDuplicateConfirmed_eq_some.1 hconf
  obtain ⟨ia, hia, -⟩ := h.info_back hia'
  have htrue := (h.confirmed_iff a ia hia ia' hia').2 (.inr hka)
  simp [hfalse] at htrue

lemma strandsMark_default (wf : WellFormed fc) (hi : fc.info SlotHashKey.default = some i) :
    strandsMark fc SlotHashKey.default = false := by
  rw [← Bool.not_eq_true, strandsMark_iff wf]
  rintro ⟨n, a, hnk, -, -, -, hmark⟩
  obtain ⟨j, hj, -⟩ := info_of_latestInvalidAncestor hmark
  have hroot : SlotHashKey.default = fc.treeRoot :=
    wf.eq_of_up_of_slot_le (wf.up_root hi) (Nat.zero_le _)
  exact hnk (hroot ▸ wf.up_root hj)

/-- After a confirmation all marks are justified exactly if it strands none. -/
theorem markForkValidCandidate_justified_iff {newly : List SlotHashKey} (hsound : Sound fc)
    (hok : fc.markForkValidCandidate k = some (fc', newly)) (hj : MarksJustified history fc) :
    MarksJustified history fc' ↔ strandsMark fc k = false := by
  rcases markForkValidCandidate_sound hsound hok with ⟨rfl, rfl⟩ | ⟨-, hmarked⟩
  · obtain ⟨i, hi⟩ := info_of_markForkValidCandidate hok
    exact ⟨fun _ => strandsMark_default hsound.wf hi, fun _ => hj⟩
  · constructor
    · intro hjustified
      rw [← Bool.not_eq_true]
      exact fun hstrand => hmarked.not_marksJustified hsound.wf hstrand hjustified
    · exact fun hstrand => hmarked.marksJustified hsound.wf hstrand hj

theorem ForkRun.marksJustified {env : VoteStakes}
    (h : ForkRun env (fun fc op => strandsNothing fc op = true) history fc) :
    MarksJustified history fc := by
  induction h with
  | new treeRoot hnew =>
    intro n s hs
    simp [(new_sound hnew env).2.2 n] at hs
  | @step history fc fc' op hrun hallowed hguard hok ih =>
    have hsound := hrun.sound
    obtain ⟨hkeeps, hstrand⟩ := Bool.and_eq_true_iff.1 hguard
    cases op with
    | addNewLeafSlot key parent =>
      refine MarksJustified.mono ?_ _
      rcases addNewLeafSlot_cases hsound hallowed hok with rfl | ⟨-, -, hlinked⟩
      · exact ih
      · exact LeafAdded.marksJustified ⟨key, parent, hlinked⟩ ih
    | addVotes votes =>
      obtain ⟨⟨fc'', best⟩, heq, rfl⟩ := map_eq_some_iff.1 hok
      exact ((addVotes_preserves hsound heq).2.1.marksJustified ih).mono _
    | setTreeRoot newRoot => simp [keepsTree] at hkeeps
    | keepSplit key => simp [keepsTree] at hkeeps
    | takeSplit key => simp [keepsTree] at hkeeps
    | markForkInvalidCandidate key =>
      rcases markForkInvalidCandidate_sound hsound hok with rfl | ⟨-, hmarked, i, hi, hconf⟩
      · exact ih.mono _
      · exact hmarked.marksJustified (isDuplicateConfirmed_eq_some.2 ⟨i, hi, hconf⟩) ih
    | markForkValidCandidate key =>
      obtain ⟨⟨fc'', newly⟩, heq, rfl⟩ := map_eq_some_iff.1 hok
      refine MarksJustified.mono ?_ _
      exact (markForkValidCandidate_justified_iff hsound heq ih).2 (by simpa using hstrand)
  | merge mergeLeaf otherVotes hrun hother hmergeable _ _ hok ih _ =>
    obtain ⟨merged, hmerged, heq⟩ := merge_eq hrun.sound hother.sound.wf hmergeable env otherVotes
    rw [heq, map_eq_some_iff] at hok
    obtain ⟨⟨fc'', best⟩, hvotes, rfl⟩ := hok
    exact (addVotes_preserves hmerged.sound hvotes).2.1.marksJustified
      (marksJustified_of_leavesAdded hmerged.added ih)

lemma markForkInvalidCandidate_total (hsound : Sound fc)
    (hconf : fc.isDuplicateConfirmed key ≠ some true) :
    ∃ fc', fc.markForkInvalidCandidate key = some fc' := by
  cases hi : fc.info key with
  | none => exact ⟨fc, by simp [markForkInvalidCandidate, hi]⟩
  | some i =>
    have hfalse : i.isDuplicateConfirmed = false := by
      simpa [isDuplicateConfirmed, hi] using hconf
    by_cases hdefault : key = SlotHashKey.default
    · subst hdefault
      obtain ⟨hfork, hsame⟩ := processUpdateOperations_default hi (.markInvalid SlotHashKey.default.slot)
      exact ⟨fc, by simp [markForkInvalidCandidate, hi, hfalse, hfork, hsame]⟩
    · obtain ⟨fc', heq, -⟩ := markForkInvalidCandidate_spec hsound hi hfalse hdefault
      exact ⟨fc', heq⟩

/-- In every run the ancestors of a confirmed node are confirmed. In runs where no confirmation
strands a mark, every mark is that of an unconfirmed ancestor that was marked invalid; the first
one that strands a mark ends this. -/
theorem duplicate_marks_consistent (env : VoteStakes) :
    (∀ guard history fc, ForkRun env guard history fc →
      (∀ n a, fc.isDuplicateConfirmed n = some true → Up fc n a → fc.isDuplicateConfirmed a = some true) ∧
      ∀ key, fc.isDuplicateConfirmed key ≠ some true →
        ∃ fc', fc.markForkInvalidCandidate key = some fc') ∧
    ∀ history fc, ForkRun env (fun fc op => strandsNothing fc op = true) history fc →
      (∀ n s, fc.latestInvalidAncestor n = some s → ∃ a, Up fc n a ∧ a.slot = s ∧
        .markForkInvalidCandidate a ∈ history ∧ fc.isDuplicateConfirmed a = some false) ∧
      ∀ key fc' newly, fc.markForkValidCandidate key = some (fc', newly) →
        (MarksJustified (.markForkValidCandidate key :: history) fc' ↔ strandsMark fc key = false) := by
  refine ⟨?_, fun history fc hrun => ⟨hrun.marksJustified, fun key fc' newly hok =>
    markForkValidCandidate_justified_iff hrun.sound hok (hrun.marksJustified.mono _)⟩⟩
  intro guard history fc hrun
  have hsound := hrun.sound
  refine ⟨?_, fun key hconf => markForkInvalidCandidate_total hsound hconf⟩
  intro n a hn hup
  obtain ⟨i, hi, hconf⟩ := isDuplicateConfirmed_eq_some.1 hn
  obtain ⟨ia, hia⟩ := ne_none_iff_exists'.1 (hsound.wf.mem_of_up hup (by simp [hi]))
  exact isDuplicateConfirmed_eq_some.2 ⟨ia, hia, hsound.marks.confirmed_of_up hup hi hconf hia⟩

/-- A mark is cleared by a confirmation, a later one below stays. -/
def markingRun : List ForkOperation :=
  [.addNewLeafSlot ⟨1, 5⟩ ⟨0, 0⟩, .addNewLeafSlot ⟨2, 6⟩ ⟨1, 5⟩, .addNewLeafSlot ⟨3, 7⟩ ⟨2, 6⟩,
    .markForkInvalidCandidate ⟨1, 5⟩, .markForkInvalidCandidate ⟨2, 6⟩,
    .markForkValidCandidate ⟨1, 5⟩]

theorem markingRun_consistent :
    ∃ fc, replay exampleStakes (fun fc op => strandsNothing fc op = true) ⟨0, 0⟩ markingRun = some fc ∧
      fc.latestInvalidAncestor ⟨3, 7⟩ = some 2 ∧
      ∃ a, Up fc ⟨3, 7⟩ a ∧ a.slot = 2 ∧ .markForkInvalidCandidate a ∈ markingRun.reverse ∧
        fc.isDuplicateConfirmed a = some false := by
  have hrun : ∃ fc ∈ replay exampleStakes (fun fc op => strandsNothing fc op = true) ⟨0, 0⟩ markingRun,
      fc.latestInvalidAncestor ⟨3, 7⟩ = some 2 := by decide
  obtain ⟨fc, hfc, hmark⟩ := hrun
  exact ⟨fc, hfc, hmark, ((duplicate_marks_consistent exampleStakes).2 _ fc (forkRun_of_replay hfc)).1
    ⟨3, 7⟩ 2 hmark⟩

/-- The parent of two forks is marked invalid, then one of the forks is confirmed. -/
def strandingRun : List ForkOperation :=
  [.addNewLeafSlot ⟨1, 5⟩ ⟨0, 0⟩, .addNewLeafSlot ⟨2, 6⟩ ⟨1, 5⟩, .addNewLeafSlot ⟨3, 7⟩ ⟨1, 5⟩,
    .markForkInvalidCandidate ⟨1, 5⟩, .markForkValidCandidate ⟨2, 6⟩]

/-- The other fork stays excluded because of a parent that is duplicate confirmed by now. -/
theorem strandingRun_strands : ∃ history fc,
    ForkRun exampleStakes (fun _ op => keepsTree op = true) history fc ∧
      fc.parent ⟨3, 7⟩ = some ⟨1, 5⟩ ∧ fc.latestInvalidAncestor ⟨3, 7⟩ = some 1 ∧
      fc.isDuplicateConfirmed ⟨1, 5⟩ = some true := by
  have hrun : ∃ fc ∈ replay exampleStakes (fun _ op => keepsTree op = true) ⟨0, 0⟩ strandingRun,
      fc.parent ⟨3, 7⟩ = some ⟨1, 5⟩ ∧ fc.latestInvalidAncestor ⟨3, 7⟩ = some 1 ∧
        fc.isDuplicateConfirmed ⟨1, 5⟩ = some true := by decide
  obtain ⟨fc, hfc, hrest⟩ := hrun
  exact ⟨_, fc, forkRun_of_replay hfc, hrest⟩

end Nuah.Proofs
