import Nuah.Proofs.ForkMarks
import Nuah.Proofs.ForkMerge
import Nuah.Proofs.ForkPruning

/-!
# Runs of a fork choice

All states reached from a new tree by any sequence of calls that meets the requirements on
callers. The invariant holds in every such state.
-/

namespace Nuah.Proofs
open HeaviestSubtreeForkChoice Option

variable {fc fc' : HeaviestSubtreeForkChoice} {k : SlotHashKey}

variable {treeRoot : SlotHashKey} {env : VoteStakes}
  {guard : HeaviestSubtreeForkChoice → ForkOperation → Prop} {history : List ForkOperation}

/-- The calls on one tree. After a split the run goes on with either of the two trees. -/
inductive ForkOperation
  | addNewLeafSlot (key parent : SlotHashKey)
  | addVotes (votes : List (Pubkey × SlotHashKey))
  | setTreeRoot (newRoot : SlotHashKey)
  | keepSplit (key : SlotHashKey)
  | takeSplit (key : SlotHashKey)
  | markForkInvalidCandidate (key : SlotHashKey)
  | markForkValidCandidate (key : SlotHashKey)
deriving DecidableEq

def ForkOperation.run (env : VoteStakes) (fc : HeaviestSubtreeForkChoice) :
    ForkOperation → Option HeaviestSubtreeForkChoice
  | .addNewLeafSlot key parent => fc.addNewLeafSlot key (some parent)
  | .addVotes votes => (fc.addVotes env votes).map Prod.fst
  | .setTreeRoot newRoot => fc.setTreeRoot newRoot
  | .keepSplit key => (fc.splitOff key).map Prod.fst
  | .takeSplit key => (fc.splitOff key).map Prod.snd
  | .markForkInvalidCandidate key => fc.markForkInvalidCandidate key
  | .markForkValidCandidate key => (fc.markForkValidCandidate key).map Prod.fst

/-- What callers see to: parents exist and have smaller slots, a batch has one vote per voter
and its votes from the root on are for nodes of the tree, and so on. -/
def ForkOperation.allowed (fc : HeaviestSubtreeForkChoice) : ForkOperation → Bool
  | .addNewLeafSlot key parent => fc.containsBlock parent && decide (parent.slot < key.slot)
  | .addVotes votes => decide (votes.map Prod.fst).Nodup &&
      votes.all fun vote => decide (vote.2.slot < fc.treeRoot.slot) || fc.containsBlock vote.2
  | .setTreeRoot newRoot => fc.containsBlock newRoot
  | .keepSplit key => fc.containsBlock key && decide (key ≠ fc.treeRoot)
  | .takeSplit key => fc.containsBlock key && decide (key ≠ fc.treeRoot)
  | .markForkInvalidCandidate key => fc.isDuplicateConfirmed key != some true
  | .markForkValidCandidate key => fc.containsBlock key

/-- The states reached from a new tree, with the calls that led there, latest first. The
guard restricts the calls further; a merge is guarded as the leaves that it adds. -/
inductive ForkRun (env : VoteStakes) (guard : HeaviestSubtreeForkChoice → ForkOperation → Prop) :
    List ForkOperation → HeaviestSubtreeForkChoice → Prop
  | new {fc : HeaviestSubtreeForkChoice} (treeRoot : SlotHashKey)
      (hnew : new treeRoot = some fc) : ForkRun env guard [] fc
  | step {history : List ForkOperation} {fc fc' : HeaviestSubtreeForkChoice} (op : ForkOperation)
      (hrun : ForkRun env guard history fc) (hallowed : op.allowed fc = true) (hguard : guard fc op)
      (hok : op.run env fc = some fc') : ForkRun env guard (op :: history) fc'
  | merge {history otherHistory : List ForkOperation} {fc other fc' : HeaviestSubtreeForkChoice}
      (mergeLeaf : SlotHashKey) (otherVotes : List (Pubkey × SlotHashKey))
      (hrun : ForkRun env guard history fc) (hother : ForkRun env guard otherHistory other)
      (hmergeable : Mergeable fc other mergeLeaf)
      (hvotes : otherVotes.Perm other.latestVotes.toList)
      (hguard : ∀ key, other.info key ≠ none → guard fc (.addNewLeafSlot key mergeLeaf))
      (hok : fc.merge other mergeLeaf env otherVotes = some fc') : ForkRun env guard history fc'

lemma containsBlock_iff {n : SlotHashKey} : fc.containsBlock n = true ↔ fc.info n ≠ none := by
  rw [containsBlock, isSome_iff_ne_none]

lemma new_sound (h : new treeRoot = some fc) (env : VoteStakes) :
    Sound fc ∧ VotesCounted env fc ∧ ∀ n, fc.latestInvalidAncestor n = none := by
  have hone : ∀ n i, fc.info n = some i → n = treeRoot ∧ i = rootLeaf treeRoot :=
    fun _ _ => info_new_eq_some h
  refine ⟨⟨new_wellFormed h, ?_, ?_, ?_, ?_, ?_⟩, ?_, ?_⟩
  · intro n i hi
    obtain ⟨rfl, rfl⟩ := hone n i hi
    exact ⟨rfl, .inl ⟨rfl, rfl, rfl⟩, fun _ => .inl ⟨rfl, rfl⟩, Up.refl fc n⟩
  · intro n i p ip hi hp
    simp [(hone n i hi).2, rootLeaf] at hp
  · intro n i hi _
    simp [(hone n i hi).2, rootLeaf]
  · intro n i s hi hs
    simp [(hone n i hi).2, rootLeaf] at hs
  · intro n i p ip s hi hp
    simp [(hone n i hi).2, rootLeaf] at hp
  · intro n i hi
    rw [(hone n i hi).2, votedStake_eq_zero]
    · rfl
    · intro pubkey
      rw [new_eq] at h
      cases h
      simp
  · intro n
    cases hi : fc.info n with
    | none => simp [latestInvalidAncestor, hi]
    | some i => simp [latestInvalidAncestor, hi, (hone n i hi).2, rootLeaf]

/-- No latest vote names a leaf that is about to be added. -/
def Unvoted (fc : HeaviestSubtreeForkChoice) : ForkOperation → Prop
  | .addNewLeafSlot key _ => fc.info key = none → ∀ pubkey : Pubkey, fc.latestVotes[pubkey]? ≠ some key
  | _ => True

lemma markForkInvalidCandidate_sound (hsound : Sound fc)
    (hok : fc.markForkInvalidCandidate k = some fc') :
    fc' = fc ∨ (Sound fc' ∧ MarkedInvalid fc k fc' ∧
      ∃ i, fc.info k = some i ∧ i.isDuplicateConfirmed = false) := by
  cases hk : fc.info k with
  | none =>
    rw [markForkInvalidCandidate, hk] at hok
    exact .inl (Option.some.inj hok).symm
  | some i =>
    have hconf : i.isDuplicateConfirmed = false := by
      rw [markForkInvalidCandidate, hk] at hok
      by_contra hcon
      simp [hcon] at hok
    by_cases hdefault : k = SlotHashKey.default
    · subst hdefault
      obtain ⟨hfork, hsame⟩ := processUpdateOperations_default hk (.markInvalid SlotHashKey.default.slot)
      left
      simpa [markForkInvalidCandidate, hk, hconf, hfork, hsame] using hok.symm
    · obtain ⟨fc'', heq, hsound', hmarked⟩ := markForkInvalidCandidate_spec hsound hk hconf hdefault
      obtain rfl := mem_unique heq hok
      exact .inr ⟨hsound', hmarked, i, rfl, hconf⟩

lemma info_of_markForkValidCandidate {result : HeaviestSubtreeForkChoice × List SlotHashKey}
    (hok : fc.markForkValidCandidate k = some result) : ∃ i, fc.info k = some i := by
  obtain ⟨newly, hnewly, -⟩ := bind_eq_some_iff.1 hok
  cases hk : fc.info k with
  | none => simp [List.filterM, List.filterAuxM, isDuplicateConfirmed, hk] at hnewly
  | some i => exact ⟨i, rfl⟩

lemma markForkValidCandidate_sound {l : List SlotHashKey} (hsound : Sound fc)
    (hok : fc.markForkValidCandidate k = some (fc', l)) :
    (k = SlotHashKey.default ∧ fc' = fc) ∨ (Sound fc' ∧ MarkedValid fc k fc') := by
  obtain ⟨i, hk⟩ := info_of_markForkValidCandidate hok
  by_cases hdefault : k = SlotHashKey.default
  · subst hdefault
    obtain ⟨hfork, hsame⟩ := processUpdateOperations_default hk (.markValid SlotHashKey.default.slot)
    obtain ⟨newly, -, hok⟩ := bind_eq_some_iff.1 hok
    left
    simp only [hfork, hsame, bind_eq_bind, bind_some, Option.some.injEq, Prod.mk.injEq] at hok
    exact ⟨rfl, hok.1.symm⟩
  · obtain ⟨fc'', l', heq, hsound', hmarked⟩ := markForkValidCandidate_spec hsound hk hdefault
    obtain ⟨rfl, -⟩ := Prod.mk.inj (mem_unique heq hok)
    exact .inr ⟨hsound', hmarked⟩

lemma votesCounted_of_stakeVotedAt (htree : SameTree fc fc')
    (hvotes : fc'.latestVotes = fc.latestVotes)
    (hstake : ∀ n i, fc.info n = some i → ∀ i', fc'.info n = some i' → i'.stakeVotedAt = i.stakeVotedAt)
    (hcounted : VotesCounted env fc) : VotesCounted env fc' := by
  intro n i' hi'
  obtain ⟨i, hi, -⟩ := htree.info_back hi'
  rw [hstake n i hi i' hi', hvotes]
  exact hcounted n i hi

lemma addNewLeafSlot_cases {key parent : SlotHashKey} (hsound : Sound fc)
    (hallowed : (ForkOperation.addNewLeafSlot key parent).allowed fc = true)
    (hok : fc.addNewLeafSlot key (some parent) = some fc') :
    fc' = fc ∨ Sound fc' ∧ fc.info key = none ∧ ∃ ip linked, Linked fc key parent ip linked ∧
      OnlyDerived linked fc' := by
  obtain ⟨hparent, hlt⟩ := Bool.and_eq_true_iff.1 hallowed
  obtain ⟨ip, hip⟩ := ne_none_iff_exists'.1 (containsBlock_iff.1 hparent)
  cases hkey : fc.info key with
  | none =>
    obtain ⟨linked, fc'', hlinked, heq, hsound', hderived⟩ :=
      addNewLeafSlot_sound hsound hkey hip (of_decide_eq_true hlt)
    obtain rfl := mem_unique heq hok
    exact .inr ⟨hsound', rfl, ip, linked, hlinked, hderived⟩
  | some i => exact .inl (mem_unique hok (addNewLeafSlot_of_mem hkey (some parent)))

/-- Every allowed call preserves the invariant, and the count of votes if it adds no leaf
that has votes already. -/
theorem ForkOperation.run_sound {op : ForkOperation} (hsound : Sound fc)
    (hallowed : op.allowed fc = true) (hok : op.run env fc = some fc') :
    Sound fc' ∧ (Unvoted fc op → VotesCounted env fc → VotesCounted env fc') := by
  cases op with
  | addNewLeafSlot key parent =>
    rcases addNewLeafSlot_cases hsound hallowed hok with
      rfl | ⟨hsound', hkey, ip, linked, hlinked, hderived⟩
    · exact ⟨hsound, fun _ hcounted => hcounted⟩
    · exact ⟨hsound', fun hunvoted hcounted =>
        hderived.votesCounted (hlinked.votesCounted hcounted (hunvoted hkey))⟩
  | addVotes votes =>
    obtain ⟨⟨fc'', best⟩, heq, rfl⟩ := map_eq_some_iff.1 hok
    obtain ⟨hsound', -, hcounted⟩ := addVotes_preserves hsound heq
    exact ⟨hsound', fun _ => hcounted⟩
  | setTreeRoot newRoot =>
    obtain ⟨fc'', heq, hsub, hvotes⟩ := setTreeRoot_spec hsound.wf (containsBlock_iff.1 hallowed)
    obtain rfl := mem_unique heq hok
    refine ⟨hsub.sound hsound, fun _ hcounted n i' hi' => ?_⟩
    obtain ⟨i, hi, rfl⟩ := hsub.info_back hi'
    rw [hvotes]
    exact hcounted n i hi
  | keepSplit key =>
    obtain ⟨hkey, hne⟩ := Bool.and_eq_true_iff.1 hallowed
    obtain ⟨kept, split, heq, hkept, -, hcounted⟩ :=
      splitOff_spec hsound (containsBlock_iff.1 hkey) (of_decide_eq_true hne)
    obtain ⟨pair, hpair, rfl⟩ := map_eq_some_iff.1 hok
    obtain rfl := mem_unique heq hpair
    exact ⟨hkept, fun _ hc => (hcounted env hc).1⟩
  | takeSplit key =>
    obtain ⟨hkey, hne⟩ := Bool.and_eq_true_iff.1 hallowed
    obtain ⟨kept, split, heq, -, hsplit, hcounted⟩ :=
      splitOff_spec hsound (containsBlock_iff.1 hkey) (of_decide_eq_true hne)
    obtain ⟨pair, hpair, rfl⟩ := map_eq_some_iff.1 hok
    obtain rfl := mem_unique heq hpair
    exact ⟨hsplit, fun _ hc => (hcounted env hc).2⟩
  | markForkInvalidCandidate key =>
    rcases markForkInvalidCandidate_sound hsound hok with rfl | ⟨hsound', hmarked, -⟩
    · exact ⟨hsound, fun _ hcounted => hcounted⟩
    · exact ⟨hsound', fun _ => votesCounted_of_stakeVotedAt hmarked.toSameTree hmarked.latestVotes_eq
        hmarked.stakeVotedAt_eq⟩
  | markForkValidCandidate key =>
    obtain ⟨⟨fc'', newly⟩, heq, rfl⟩ := map_eq_some_iff.1 hok
    rcases markForkValidCandidate_sound hsound heq with ⟨-, rfl⟩ | ⟨hsound', hmarked⟩
    · exact ⟨hsound, fun _ hcounted => hcounted⟩
    · exact ⟨hsound', fun _ => votesCounted_of_stakeVotedAt hmarked.toSameTree hmarked.latestVotes_eq
        hmarked.stakeVotedAt_eq⟩

theorem ForkRun.sound (h : ForkRun env guard history fc) : Sound fc := by
  induction h with
  | new treeRoot hnew => exact (new_sound hnew env).1
  | step op _ hallowed _ hok ih => exact (op.run_sound ih hallowed hok).1
  | merge mergeLeaf otherVotes _ _ hmergeable _ _ hok ih ihother =>
    exact (merge_sound ih ihother.wf hmergeable hok).1

theorem ForkRun.votesCounted (h : ForkRun env Unvoted history fc) : VotesCounted env fc := by
  induction h with
  | new treeRoot hnew => exact (new_sound hnew env).2.1
  | step op hrun hallowed hguard hok ih => exact (op.run_sound hrun.sound hallowed hok).2 hguard ih
  | merge mergeLeaf otherVotes hrun hother hmergeable _ hguard hok ih _ =>
    refine (merge_sound hrun.sound hother.sound.wf hmergeable hok).2 ih ?_
    intro n hn
    exact hguard n hn (hmergeable.disjoint n hn)

instance (fc : HeaviestSubtreeForkChoice) (op : ForkOperation) : Decidable (Unvoted fc op) :=
  match op with
  | .addNewLeafSlot key _ =>
    decidable_of_iff (fc.info key = none → ∀ entry ∈ fc.latestVotes.toList, entry.2 ≠ key) (by
      refine imp_congr_right fun _ => ⟨?_, ?_⟩
      · intro h pubkey hvote
        exact h (pubkey, key) (Std.TreeMap.mem_toList_iff_getElem?_eq_some.2 hvote) rfl
      · rintro h ⟨pubkey, n⟩ hentry rfl
        exact h pubkey (Std.TreeMap.mem_toList_iff_getElem?_eq_some.1 hentry))
  | .addVotes _ | .setTreeRoot _ | .keepSplit _ | .takeSplit _ | .markForkInvalidCandidate _
  | .markForkValidCandidate _ => .isTrue trivial

/-- A run without merges from a new tree. -/
def replay (env : VoteStakes) (guard : HeaviestSubtreeForkChoice → ForkOperation → Prop)
    [∀ fc op, Decidable (guard fc op)] (treeRoot : SlotHashKey) (ops : List ForkOperation) :
    Option HeaviestSubtreeForkChoice := do
  let fc ← new treeRoot
  ops.foldlM (fun fc op => if op.allowed fc = true ∧ guard fc op then op.run env fc else none) fc

lemma forkRun_of_replay [∀ fc op, Decidable (guard fc op)] {ops : List ForkOperation}
    (hok : replay env guard treeRoot ops = some fc) :
    ForkRun env guard ops.reverse fc := by
  unfold replay at hok
  induction ops using List.reverseRecOn generalizing fc with
  | nil =>
    obtain ⟨start, hnew, hok⟩ := bind_eq_some_iff.1 hok
    cases hok
    exact .new treeRoot hnew
  | append_singleton ops op ih =>
    obtain ⟨start, hnew, hok⟩ := bind_eq_some_iff.1 hok
    rw [List.foldlM_append] at hok
    obtain ⟨before, hbefore, hok⟩ := bind_eq_some_iff.1 hok
    have hrun := ih (bind_eq_some_iff.2 ⟨start, hnew, hbefore⟩)
    rw [List.foldlM_cons] at hok
    obtain ⟨next, hop, hok⟩ := bind_eq_some_iff.1 hok
    cases hok
    obtain ⟨hguard, hop⟩ := ite_none_right_eq_some.1 hop
    rw [List.reverse_append]
    exact .step op hrun hguard.1 hguard.2 hop

/-- Two epochs with their own stakes. -/
def exampleStakes : VoteStakes where
  epochStakes epoch := if epoch < 2 then some (fun pubkey => 10 * (epoch + 1) + pubkey) else none
  getEpoch slot := slot / 3

/-- Votes move, the root advances and a fork is split off. -/
def votingRun : List ForkOperation :=
  [.addNewLeafSlot ⟨1, 5⟩ ⟨0, 0⟩, .addNewLeafSlot ⟨2, 6⟩ ⟨1, 5⟩, .addNewLeafSlot ⟨3, 7⟩ ⟨1, 5⟩,
    .addNewLeafSlot ⟨4, 8⟩ ⟨2, 6⟩, .addVotes [(7, ⟨2, 6⟩), (8, ⟨3, 7⟩)], .addVotes [(7, ⟨4, 8⟩)],
    .setTreeRoot ⟨1, 5⟩, .keepSplit ⟨3, 7⟩]

/-- The vote for a node that `set_tree_root` drops stays among the latest votes. -/
def readdingRun : List ForkOperation :=
  [.addNewLeafSlot ⟨1, 5⟩ ⟨0, 0⟩, .addNewLeafSlot ⟨2, 6⟩ ⟨0, 0⟩, .addVotes [(7, ⟨2, 6⟩)],
    .setTreeRoot ⟨1, 5⟩, .addNewLeafSlot ⟨2, 6⟩ ⟨1, 5⟩, .addNewLeafSlot ⟨3, 7⟩ ⟨1, 5⟩]

end Nuah.Proofs
