import Nuah.VoteProgram
import Nuah.Proofs.NextVoteSlot

/-!
# Legacy votes

A successful `process_vote` pushes the slots of the vote one after the other, and at least
one of them is above the last voted slot.
-/

namespace Nuah.Proofs
open Nuah

variable {vs : VoteState} {voteSlots : List Slot} {slotHashes : SlotHashes}

variable {vs' : VoteState} {vote : Vote} {epoch : Epoch} {currentSlot : Slot}
  {timely legacy : Bool}

/-- A vote account's tower: the tower invariant, and no root before the first vote. -/
structure AccountTower (vs : VoteState) : Prop extends TowerInvariant vs where
  no_root_before_votes : vs.votes = [] → vs.rootSlot = none

lemma accountTower_new (voteInit : VoteInit) (epoch : Epoch) :
    AccountTower (VoteState.new voteInit epoch) :=
  ⟨towerInvariant_new voteInit epoch, fun _ => rfl⟩

/-- What a call that changes the tower must respect: the invariant, the root and the order
of the last voted slots. -/
structure TowerProgress (vs vs' : VoteState) : Prop where
  tower : AccountTower vs'
  root_le : RootLe vs.rootSlot vs'.rootSlot
  last_le : ∀ last, vs.lastVotedSlot = some last → ∃ m, vs'.lastVotedSlot = some m ∧ last ≤ m

lemma TowerProgress.refl (h : AccountTower vs) : TowerProgress vs vs :=
  ⟨h, RootLe.refl _, fun last hlast => ⟨last, hlast, le_refl last⟩⟩

lemma TowerProgress.trans {a b c : VoteState} (hab : TowerProgress a b) (hbc : TowerProgress b c) :
    TowerProgress a c := by
  refine ⟨hbc.tower, hab.root_le.trans hbc.root_le, ?_⟩
  intro last hlast
  obtain ⟨m, hm, hle⟩ := hab.last_le last hlast
  obtain ⟨m', hm', hle'⟩ := hbc.last_le m hm
  exact ⟨m', hm', hle.trans hle'⟩

lemma votes_ne_nil_of_lastVotedSlot {s : Slot} (h : vs.lastVotedSlot = some s) : vs.votes ≠ [] := by
  intro hnil
  simp [VoteState.lastVotedSlot, VoteState.lastLockout, hnil] at h

lemma processNextVoteSlot_progress (h : AccountTower vs) (s : Slot) (epoch : Epoch)
    (currentSlot : Slot) (timely legacy : Bool) :
    TowerProgress vs (vs.processNextVoteSlot s epoch currentSlot timely legacy) := by
  have hempty : vs.votes = [] → ∀ r, vs.rootSlot = some r → r ≠ 0 → r < s := by
    intro hnil r hr
    simp [h.no_root_before_votes hnil] at hr
  obtain ⟨htower, hroot⟩ :=
    processNextVoteSlot_invariant h.toTowerInvariant s epoch currentSlot timely legacy hempty
  obtain ⟨m, hm, -, hle⟩ :=
    processNextVoteSlot_lastVotedSlot_le h.toTowerInvariant s epoch currentSlot timely legacy
  refine ⟨⟨htower, ?_⟩, hroot, fun last hlast => ⟨m, hm, hle last hlast⟩⟩
  intro hnil
  exact absurd hnil (votes_ne_nil_of_lastVotedSlot hm)

lemma pushSlots_progress (epoch : Epoch) (currentSlot : Slot) (timely legacy : Bool)
    (slots : List Slot) (h : AccountTower vs) :
    let vs' := slots.foldl
      (fun vs s => vs.processNextVoteSlot s epoch currentSlot timely legacy) vs
    TowerProgress vs vs' ∧ ∀ s ∈ slots, ∃ m, vs'.lastVotedSlot = some m ∧ s ≤ m := by
  induction slots generalizing vs with
  | nil => exact ⟨TowerProgress.refl h, by simp⟩
  | cons s slots ih =>
    have hstep := processNextVoteSlot_progress h s epoch currentSlot timely legacy
    obtain ⟨hrest, hall⟩ := ih hstep.tower
    obtain ⟨m, hm, hle, -⟩ := processNextVoteSlot_lastVotedSlot_le h.toTowerInvariant s epoch
      currentSlot timely legacy
    obtain ⟨m', hm', hle'⟩ := hrest.last_le m hm
    exact ⟨hstep.trans hrest, List.forall_mem_cons.2 ⟨⟨m', hm', hle.trans hle'⟩, hall⟩⟩

lemma checkSlotsLoop_ok (vs : VoteState) (voteSlots : List Slot) (slotHashes : SlotHashes)
    (fuel i j i' j' : Nat) (h : checkSlotsLoop vs voteSlots slotHashes fuel i j = .ok (i', j')) :
    j' = j ∨ ∃ s ∈ voteSlots, ∀ last, vs.lastVotedSlot = some last → last < s := by
  induction fuel generalizing i j with
  | zero =>
    simp only [checkSlotsLoop, Except.ok.injEq, Prod.mk.injEq] at h
    exact .inl h.2.symm
  | succ fuel ih =>
    unfold checkSlotsLoop at h
    split at h
    · obtain ⟨voteSlot, hslot, h⟩ := bind_eq_ok.1 h
      rw [indexOrPanic_eq_ok] at hslot
      split at h
      · exact ih _ _ h
      · rename_i hskip
        refine .inr ⟨voteSlot, List.mem_of_getElem? hslot, ?_⟩
        intro last hlast
        simpa [hlast] using hskip
    · simp only [Except.ok.injEq, Prod.mk.injEq] at h
      exact .inl h.2.symm

lemma checkSlotsAreValid_ok {voteHash : Hash}
    (h : checkSlotsAreValid vs voteSlots voteHash slotHashes = .ok ()) :
    ∃ s ∈ voteSlots, ∀ last, vs.lastVotedSlot = some last → last < s := by
  obtain ⟨⟨i, j⟩, hloop, h⟩ := bind_eq_ok.1 h
  obtain ⟨hmoved, -⟩ := ite_error_eq_ok.1 h
  exact (checkSlotsLoop_ok vs voteSlots slotHashes _ _ _ _ _ hloop).resolve_left hmoved

lemma processVoteUnfiltered_progress (h : AccountTower vs)
    (hok : processVoteUnfiltered vs voteSlots vote slotHashes epoch currentSlot timely legacy = .ok vs') :
    TowerProgress vs vs' ∧
      ∃ m, vs'.lastVotedSlot = some m ∧ ∀ last, vs.lastVotedSlot = some last → last < m := by
  obtain ⟨_, hcheck, hok⟩ := bind_eq_ok.1 hok
  obtain ⟨s, hs, habove⟩ := checkSlotsAreValid_ok hcheck
  obtain ⟨hprogress, hall⟩ := pushSlots_progress epoch currentSlot timely legacy voteSlots h
  cases hok
  obtain ⟨m, hm, hle⟩ := hall s hs
  exact ⟨hprogress, m, hm, fun last hlast => (habove last hlast).trans_le hle⟩

theorem processVote_progress (h : AccountTower vs)
    (hok : processVote vs vote slotHashes epoch currentSlot timely legacy = .ok vs') :
    TowerProgress vs vs' ∧
      ∃ m, vs'.lastVotedSlot = some m ∧ ∀ last, vs.lastVotedSlot = some last → last < m := by
  obtain ⟨-, hok⟩ := ite_error_eq_ok.1 hok
  obtain ⟨-, hok⟩ := ite_error_eq_ok.1 hok
  exact processVoteUnfiltered_progress h hok

end Nuah.Proofs
