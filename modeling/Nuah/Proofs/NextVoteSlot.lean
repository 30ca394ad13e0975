import Nuah.Proofs.TowerShape

/-!
# The iterative update keeps the tower invariant

`process_next_vote_slot` pops the expired votes, makes the oldest vote the root when the
stack is full, pushes the new vote and doubles the lockouts below it.
-/

namespace Nuah.Proofs
open LandedVote VoteState List

variable {vs vs' : VoteState} {s : Slot} {v : LandedVote} {kept : List LandedVote}

/-- The tower invariant of a vote account. -/
structure TowerInvariant (vs : VoteState) : Prop where
  length_le : vs.votes.length ≤ maxLockoutHistory
  slots_increasing : vs.votes.Pairwise fun a b => a.slot < b.slot
  counts_decreasing : vs.votes.Pairwise fun a b => b.confirmationCount < a.confirmationCount
  counts_in_range : ∀ v ∈ vs.votes,
    1 ≤ v.confirmationCount ∧ v.confirmationCount ≤ maxLockoutHistory
  not_expired : vs.votes.IsChain fun a b => b.slot ≤ a.lockout.lastLockedOutSlot
  root_below : ∀ r, vs.rootSlot = some r → r ≠ 0 → ∀ v ∈ vs.votes, r < v.slot

/-- A root is never given up and never moves back. -/
def RootLe (old new : Option Slot) : Prop := ∀ r, old = some r → ∃ r', new = some r' ∧ r ≤ r'

lemma RootLe.refl (root : Option Slot) : RootLe root root := fun r h => ⟨r, h, le_refl r⟩

lemma RootLe.trans {a b c : Option Slot} (hab : RootLe a b) (hbc : RootLe b c) : RootLe a c := by
  intro r hr
  obtain ⟨r', hr', hle⟩ := hab r hr
  obtain ⟨r'', hr'', hle'⟩ := hbc r' hr'
  exact ⟨r'', hr'', hle.trans hle'⟩

def lockoutsOf (vs : VoteState) : List Lockout := vs.votes.map lockout

lemma TowerInvariant.shape (h : TowerInvariant vs) : TowerShape (lockoutsOf vs) where
  length_le := by simpa [lockoutsOf] using h.length_le
  chain := by
    unfold lockoutsOf
    rw [isChain_map, isChain_iff_getElem]
    intro i hi
    exact ⟨pairwise_iff_getElem.1 h.slots_increasing i (i + 1) (by omega) hi (by omega),
      pairwise_iff_getElem.1 h.counts_decreasing i (i + 1) (by omega) hi (by omega),
      isChain_iff_getElem.1 h.not_expired i hi⟩
  count_pos := forall_mem_map.2 fun v hv => (h.counts_in_range v hv).1
  count_le := forall_mem_map.2 fun v hv => (h.counts_in_range v hv).2

lemma TowerInvariant.of_shape (h : TowerShape (lockoutsOf vs))
    (hroot : ∀ r, vs.rootSlot = some r → r ≠ 0 → ∀ v ∈ vs.votes, r < v.slot) :
    TowerInvariant vs where
  length_le := by simpa [lockoutsOf] using h.length_le
  slots_increasing := (pairwise_map (f := lockout)).1 h.slots_lt
  counts_decreasing := (pairwise_map (f := lockout)).1 h.counts_gt
  counts_in_range := fun v hv =>
    ⟨h.count_pos _ (mem_map_of_mem hv), h.count_le _ (mem_map_of_mem hv)⟩
  not_expired := ((isChain_map _).1 h.chain).imp fun _ _ hs => hs.not_expired
  root_below := hroot

lemma towerInvariant_new (voteInit : VoteInit) (epoch : Epoch) :
    TowerInvariant (VoteState.new voteInit epoch) :=
  TowerInvariant.of_shape TowerShape.nil (by intro r h; simp [VoteState.new, VoteState.default] at h)

@[simp] lemma incrementCredits_votes (vs : VoteState) (epoch credits : Nat) :
    (vs.incrementCredits epoch credits).votes = vs.votes := by
  unfold incrementCredits
  dsimp only
  split <;> rfl

@[simp] lemma incrementCredits_rootSlot (vs : VoteState) (epoch credits : Nat) :
    (vs.incrementCredits epoch credits).rootSlot = vs.rootSlot := by
  unfold incrementCredits
  dsimp only
  split <;> rfl

lemma popOldestVote_cases (vs : VoteState) (epoch : Epoch) (timely legacy : Bool) :
    (vs.votes.length ≠ maxLockoutHistory ∧ vs.popOldestVote epoch timely legacy = vs) ∨
    (∃ oldest rest, vs.votes = oldest :: rest ∧ vs.votes.length = maxLockoutHistory ∧
      (vs.popOldestVote epoch timely legacy).votes = rest ∧
      (vs.popOldestVote epoch timely legacy).rootSlot = some oldest.slot) := by
  unfold popOldestVote
  split
  · rename_i hnil
    exact .inl ⟨by simp [hnil, maxLockoutHistory], rfl⟩
  · rename_i oldest rest hcons
    by_cases hlen : vs.votes.length = maxLockoutHistory
    · refine .inr ⟨oldest, rest, hcons, hlen, ?_, ?_⟩
      · rw [if_pos hlen, incrementCredits_votes]
      · rw [if_pos hlen, incrementCredits_rootSlot]
    · exact .inl ⟨hlen, by rw [if_neg hlen]⟩

lemma lastVotedSlot_eq_some :
    vs.lastVotedSlot = some s ↔ ∃ v, vs.votes.getLast? = some v ∧ v.slot = s := by
  simp [lastVotedSlot, lastLockout, slot]

lemma slot_le_lastVotedSlot (h : TowerInvariant vs) (hv : v ∈ vs.votes) :
    ∃ s, vs.lastVotedSlot = some s ∧ v.slot ≤ s := by
  have hne : vs.votes ≠ [] := ne_nil_of_mem hv
  refine ⟨(vs.votes.getLast hne).slot, ?_, ?_⟩
  · exact lastVotedSlot_eq_some.2 ⟨_, getLast?_eq_getLast_of_ne_nil hne, rfl⟩
  · by_cases heq : v = vs.votes.getLast hne
    · rw [heq]
    · have hsplit := dropLast_append_getLast hne
      have hmem : v ∈ vs.votes.dropLast := by
        rw [← hsplit] at hv
        simpa [heq] using hv
      have hpw := h.slots_increasing
      rw [← hsplit, pairwise_append] at hpw
      exact (hpw.2.2 v hmem _ (by simp)).le

lemma doubleLockouts_lockouts (stackDepth : Nat) (votes : List LandedVote) :
    (votes.mapIdx (doubleLockout stackDepth)).map lockout =
      (votes.map lockout).mapIdx (doubledLockout stackDepth) := by
  apply ext_getElem
  · simp
  · intro i _ _
    simp [doubleLockout_lockout]

/-- What a vote on a new slot leaves: the votes below it are a consecutive part of the old
ones, the root is either kept or is the vote just below that part, and the votes above that
part have expired. -/
structure Pushed (vs : VoteState) (s : Slot) (vs' : VoteState) (kept : List LandedVote) : Prop where
  lockouts_eq : lockoutsOf vs' =
    (kept.map lockout ++ [Lockout.new s]).mapIdx (doubledLockout (kept.length + 1))
  length_lt : kept.length < maxLockoutHistory
  live : ∀ v ∈ kept.getLast?, s ≤ v.lockout.lastLockedOutSlot
  root : (kept <+: vs.votes ∧ vs'.rootSlot = vs.rootSlot) ∨
    (∃ oldest, oldest :: kept <+: vs.votes ∧ vs'.rootSlot = some oldest.slot)
  dropped : ∀ v ∈ vs.votes, v ∈ kept ∨ v.lockout.lastLockedOutSlot < s ∨ vs'.rootSlot = some v.slot

lemma popExpiredVotes_live :
    ∀ v ∈ (vs.popExpiredVotes s).votes.getLast?, s ≤ v.lockout.lastLockedOutSlot := by
  intro v hv
  have hne : (vs.popExpiredVotes s).votes ≠ [] := by
    intro hnil
    simp [hnil] at hv
  have hlast := rdropWhile_last_not _ vs.votes hne
  obtain rfl : (vs.popExpiredVotes s).votes.getLast hne = v := by
    simpa [getLast?_eq_getLast_of_ne_nil hne] using hv
  simp only [Bool.not_eq_true', Bool.not_eq_false] at hlast
  exact of_decide_eq_true hlast

lemma popExpiredVotes_dropped (hv : v ∈ vs.votes) :
    v ∈ (vs.popExpiredVotes s).votes ∨ v.lockout.lastLockedOutSlot < s := by
  by_cases hlocked : v.lockout.isLockedOutAtSlot s
  · refine .inl ?_
    by_contra hout
    have hsplit := rdropWhile_append_rtakeWhile
      (p := fun vote : LandedVote => !vote.lockout.isLockedOutAtSlot s) (l := vs.votes)
    rw [← hsplit] at hv
    rcases mem_append.1 hv with hv | hv
    · exact hout hv
    · simpa [hlocked] using mem_rtakeWhile_imp hv
  · refine .inr ?_
    simpa [Lockout.isLockedOutAtSlot] using hlocked

lemma processNextVoteSlot_new (h : TowerInvariant vs) (s : Slot) (epoch : Epoch)
    (currentSlot : Slot) (timely legacy : Bool)
    (hnew : ∀ last, vs.lastVotedSlot = some last → last < s) :
    ∃ kept, Pushed vs s (vs.processNextVoteSlot s epoch currentSlot timely legacy) kept := by
  have hskip : vs.lastVotedSlot.any (fun last => decide (s ≤ last)) = false := by
    rw [Option.any_eq_false]
    intro last hlast
    simpa using hnew last hlast
  have hpre : (vs.popExpiredVotes s).votes <+: vs.votes := rdropWhile_prefix _ _
  have hlen : (vs.popExpiredVotes s).votes.length ≤ maxLockoutHistory :=
    hpre.length_le.trans h.length_le
  have hlockouts : lockoutsOf (vs.processNextVoteSlot s epoch currentSlot timely legacy) =
      (((vs.popExpiredVotes s).popOldestVote epoch timely legacy).votes.map lockout ++
        [Lockout.new s]).mapIdx
          (doubledLockout (((vs.popExpiredVotes s).popOldestVote epoch timely legacy).votes.length + 1)) := by
    unfold processNextVoteSlot
    rw [hskip]
    simp only [Bool.false_eq_true, if_false, lockoutsOf, doubleLockouts,
      doubleLockouts_lockouts, map_append, map_cons, map_nil, length_append,
      length_singleton]
  have hroot : (vs.processNextVoteSlot s epoch currentSlot timely legacy).rootSlot =
      ((vs.popExpiredVotes s).popOldestVote epoch timely legacy).rootSlot := by
    unfold processNextVoteSlot
    rw [hskip]
    rfl
  obtain ⟨hfull, heq⟩ | ⟨oldest, rest, hcons, hfull, hvotes, hnewRoot⟩ :=
    popOldestVote_cases (vs.popExpiredVotes s) epoch timely legacy
  · rw [heq] at hlockouts hroot
    refine ⟨_, hlockouts, by omega, popExpiredVotes_live, .inl ⟨hpre, hroot⟩, fun v hv => ?_⟩
    exact (popExpiredVotes_dropped hv).imp_right .inl
  · rw [hvotes] at hlockouts
    rw [hnewRoot] at hroot
    refine ⟨rest, hlockouts, ?_, ?_, .inr ⟨oldest, hcons ▸ hpre, hroot⟩, ?_⟩
    · rw [hcons, length_cons] at hfull
      omega
    · intro v hv
      apply popExpiredVotes_live v
      rw [hcons, getLast?_cons]
      simp only [Option.mem_def] at hv
      simp [hv]
    · rw [hroot]
      intro v hv
      rcases popExpiredVotes_dropped (s := s) hv with hin | hout
      · rw [hcons] at hin
        rcases mem_cons.1 hin with rfl | hin
        · exact .inr (.inr rfl)
        · exact .inl hin
      · exact .inr (.inl hout)

lemma slot_lt_of_lastVotedSlot_lt (h : TowerInvariant vs)
    (hnew : ∀ last, vs.lastVotedSlot = some last → last < s) (hv : v ∈ vs.votes) : v.slot < s := by
  obtain ⟨last, hlast, hle⟩ := slot_le_lastVotedSlot h hv
  exact hle.trans_lt (hnew last hlast)

section

variable (h : Pushed vs s vs' kept)

include h

lemma Pushed.slots_eq : vs'.votes.map slot = kept.map slot ++ [s] := by
  have hslots : ∀ (d : Nat) (ls : List Lockout),
      (ls.mapIdx (doubledLockout d)).map Lockout.slot = ls.map Lockout.slot := by
    intro d ls
    apply ext_getElem
    · simp
    · intro i _ _
      simp [doubledLockout_slot]
  calc vs'.votes.map slot = (lockoutsOf vs').map Lockout.slot := by
        rw [lockoutsOf, map_map]
        rfl
    _ = (kept.map lockout ++ [Lockout.new s]).map Lockout.slot := by
        rw [h.lockouts_eq, hslots]
    _ = kept.map slot ++ [s] := by
        rw [map_append, map_map]
        rfl

lemma Pushed.mem (hv : v ∈ vs'.votes) : (∃ w ∈ kept, w.slot = v.slot) ∨ v.slot = s := by
  have hslot : v.slot ∈ vs'.votes.map slot := mem_map_of_mem hv
  rw [h.slots_eq] at hslot
  simpa using hslot

lemma Pushed.lastVotedSlot : vs'.lastVotedSlot = some s := by
  have hlast : vs'.lastVotedSlot = (vs'.votes.map slot).getLast? := by
    rw [VoteState.lastVotedSlot, VoteState.lastLockout, getLast?_map, Option.map_map]
    rfl
  rw [hlast, h.slots_eq, getLast?_concat]

lemma Pushed.kept_isInfix : kept <:+: vs.votes := by
  obtain ⟨hp, -⟩ | ⟨oldest, hp, -⟩ := h.root
  · exact hp.isInfix
  · exact (suffix_cons oldest kept).isInfix.trans hp.isInfix

end

lemma processNextVoteSlot_ignored {last : Slot} (epoch : Epoch) (currentSlot : Slot)
    (timely legacy : Bool) (hlast : vs.lastVotedSlot = some last) (hle : s ≤ last) :
    vs.processNextVoteSlot s epoch currentSlot timely legacy = vs := by
  unfold processNextVoteSlot
  rw [if_pos]
  simp [hlast, hle]

/-- One vote keeps the tower invariant and does not move the root back. Without votes in the
tower nothing but the hypothesis keeps the new slot above the root. -/
theorem processNextVoteSlot_invariant {vs : VoteState} (h : TowerInvariant vs) (s : Slot)
    (epoch : Epoch) (currentSlot : Slot) (timely legacy : Bool)
    (hempty : vs.votes = [] → ∀ r, vs.rootSlot = some r → r ≠ 0 → r < s) :
    TowerInvariant (vs.processNextVoteSlot s epoch currentSlot timely legacy) ∧
      RootLe vs.rootSlot (vs.processNextVoteSlot s epoch currentSlot timely legacy).rootSlot := by
  by_cases hnew : ∀ last, vs.lastVotedSlot = some last → last < s
  · obtain ⟨kept, hpushed⟩ := processNextVoteSlot_new h s epoch currentSlot timely legacy hnew
    have hshape : TowerShape (kept.map lockout) := by
      obtain ⟨hp, -⟩ | ⟨oldest, hp, -⟩ := hpushed.root
      · exact h.shape.of_isInfix (hp.map _).isInfix
      · exact (h.shape.of_isInfix (hp.map lockout).isInfix).tail
    have hpush := hshape.push (by simpa using hpushed.length_lt) s (by
      intro l hl
      rw [getLast?_map, Option.mem_def, Option.map_eq_some_iff] at hl
      obtain ⟨v, hv, rfl⟩ := hl
      have hmem : v ∈ vs.votes := hpushed.kept_isInfix.subset (mem_of_getLast? hv)
      exact ⟨slot_lt_of_lastVotedSlot_lt h hnew hmem, hpushed.live v hv⟩)
    rw [length_map] at hpush
    refine ⟨TowerInvariant.of_shape (hpushed.lockouts_eq ▸ hpush) ?_, ?_⟩
    · intro r hr hr0 v hv
      obtain ⟨hp, hkeep⟩ | ⟨oldest, hp, hnewRoot⟩ := hpushed.root
      · have hr' : vs.rootSlot = some r := hkeep ▸ hr
        obtain ⟨w, hw, hwv⟩ | hvs := hpushed.mem hv
        · rw [← hwv]
          exact h.root_below r hr' hr0 w (hp.subset hw)
        · rw [hvs]
          by_cases hnil : vs.votes = []
          · exact hempty hnil r hr' hr0
          · obtain ⟨w, hw⟩ := exists_mem_of_ne_nil _ hnil
            exact (h.root_below r hr' hr0 w hw).trans (slot_lt_of_lastVotedSlot_lt h hnew hw)
      · obtain rfl : oldest.slot = r := by simpa [hnewRoot] using hr
        have hpw := h.slots_increasing.sublist hp.sublist
        obtain ⟨w, hw, hwv⟩ | hvs := hpushed.mem hv
        · rw [← hwv]
          exact (pairwise_cons.1 hpw).1 w hw
        · rw [hvs]
          exact slot_lt_of_lastVotedSlot_lt h hnew (hp.subset (by simp))
    · obtain ⟨hp, hkeep⟩ | ⟨oldest, hp, hnewRoot⟩ := hpushed.root
      · rw [hkeep]
        exact RootLe.refl _
      · intro r hr
        refine ⟨oldest.slot, hnewRoot, ?_⟩
        by_cases hr0 : r = 0
        · simp [hr0]
        · exact (h.root_below r hr hr0 oldest (hp.subset (by simp))).le
  · push Not at hnew
    obtain ⟨last, hlast, hle⟩ := hnew
    rw [processNextVoteSlot_ignored epoch currentSlot timely legacy hlast hle]
    exact ⟨h, RootLe.refl _⟩

lemma processNextVoteSlot_lastVotedSlot_le (h : TowerInvariant vs) (s : Slot) (epoch : Epoch)
    (currentSlot : Slot) (timely legacy : Bool) :
    ∃ m, (vs.processNextVoteSlot s epoch currentSlot timely legacy).lastVotedSlot = some m ∧
      s ≤ m ∧ ∀ last, vs.lastVotedSlot = some last → last ≤ m := by
  by_cases hnew : ∀ last, vs.lastVotedSlot = some last → last < s
  · obtain ⟨kept, hpushed⟩ := processNextVoteSlot_new h s epoch currentSlot timely legacy hnew
    exact ⟨s, hpushed.lastVotedSlot, le_refl s, fun last hlast => (hnew last hlast).le⟩
  · push Not at hnew
    obtain ⟨last, hlast, hle⟩ := hnew
    rw [processNextVoteSlot_ignored epoch currentSlot timely legacy hlast hle]
    refine ⟨last, hlast, hle, ?_⟩
    intro last' hlast'
    exact (Option.mem_unique hlast' hlast).le

end Nuah.Proofs
