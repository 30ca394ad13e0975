import Nuah.VoteState

/-!
# The shape of a tower

A stack of at most 31 lockouts, oldest first, with increasing slots and decreasing
confirmation counts, no lockout of which is expired by the one above it.
-/

namespace Nuah.Proofs
open Lockout List

variable {ls : List Lockout}

/-- What a lockout must satisfy towards the next lockout of the tower. -/
structure Supports (a b : Lockout) : Prop where
  slot_lt : a.slot < b.slot
  count_gt : b.confirmationCount < a.confirmationCount
  not_expired : b.slot ≤ a.lastLockedOutSlot

structure TowerShape (ls : List Lockout) : Prop where
  length_le : ls.length ≤ maxLockoutHistory
  chain : ls.IsChain Supports
  count_pos : ∀ l ∈ ls, 1 ≤ l.confirmationCount
  count_le : ∀ l ∈ ls, l.confirmationCount ≤ maxLockoutHistory

namespace TowerShape

lemma nil : TowerShape [] := ⟨by simp [maxLockoutHistory], List.IsChain.nil, by simp, by simp⟩

lemma of_isInfix {ls' : List Lockout} (h : TowerShape ls) (hp : ls' <:+: ls) :
    TowerShape ls' where
  length_le := hp.length_le.trans h.length_le
  chain := h.chain.infix hp
  count_pos := fun l hl => h.count_pos l (hp.subset hl)
  count_le := fun l hl => h.count_le l (hp.subset hl)

lemma tail {l : Lockout} (h : TowerShape (l :: ls)) : TowerShape ls :=
  h.of_isInfix (suffix_cons l ls).isInfix

lemma slots_lt (h : TowerShape ls) : ls.Pairwise (fun a b => a.slot < b.slot) := by
  have hc : ls.IsChain (fun a b => a.slot < b.slot) := h.chain.imp fun _ _ hs => hs.slot_lt
  have : IsTrans Lockout (fun a b => a.slot < b.slot) := ⟨fun _ _ _ => lt_trans⟩
  exact isChain_iff_pairwise.1 hc

lemma counts_gt (h : TowerShape ls) :
    ls.Pairwise (fun a b => b.confirmationCount < a.confirmationCount) := by
  have hc : ls.IsChain (fun a b => b.confirmationCount < a.confirmationCount) :=
    h.chain.imp fun _ _ hs => hs.count_gt
  have : IsTrans Lockout (fun a b => b.confirmationCount < a.confirmationCount) :=
    ⟨fun _ _ _ hab hbc => lt_trans hbc hab⟩
  exact isChain_iff_pairwise.1 hc

lemma depth_le (h : TowerShape ls) (i : Nat) (hi : i < ls.length) :
    ls.length ≤ i + ls[i].confirmationCount := by
  induction ls generalizing i with
  | nil => simp at hi
  | cons l ls ih =>
    cases i with
    | succ i =>
      have hi' : i < ls.length := by simpa using hi
      have := ih h.tail i hi'
      simp only [length_cons, getElem_cons_succ]
      omega
    | zero =>
      simp only [length_cons, getElem_cons_zero, Nat.zero_add]
      cases ls with
      | nil =>
        have := h.count_pos l (by simp)
        simpa using this
      | cons m ls =>
        have hm := ih h.tail 0 (by simp)
        have hlm : m.confirmationCount < l.confirmationCount :=
          (isChain_cons_cons.1 h.chain).1.count_gt
        simp only [length_cons, getElem_cons_zero, Nat.zero_add] at hm ⊢
        omega

end TowerShape

/-- `doubleLockout` seen on the lockout alone. -/
def doubledLockout (stackDepth i : Nat) (l : Lockout) : Lockout :=
  if i + l.confirmationCount < stackDepth then l.increaseConfirmationCount 1 else l

variable (stackDepth i : Nat)

lemma doubleLockout_lockout (v : LandedVote) :
    (VoteState.doubleLockout stackDepth i v).lockout = doubledLockout stackDepth i v.lockout := by
  unfold VoteState.doubleLockout doubledLockout LandedVote.confirmationCount
  split <;> rfl

variable (l : Lockout)

lemma doubledLockout_slot : (doubledLockout stackDepth i l).slot = l.slot := by
  unfold doubledLockout
  split <;> rfl

section

variable (hle : l.confirmationCount ≤ maxLockoutHistory)

include hle

/-- Where the stack is at most one deeper than the confirmations seen, doubling lifts the
count to the depth of the stack. -/
lemma doubledLockout_count (hdepth : stackDepth ≤ i + l.confirmationCount + 1) :
    (doubledLockout stackDepth i l).confirmationCount = max l.confirmationCount (stackDepth - i) := by
  unfold doubledLockout increaseConfirmationCount saturatingAddU32
  simp only [maxLockoutHistory] at hle
  split
  · simp only [u32Max]
    omega
  · omega

lemma lockout_eq_pow : l.lockout = 2 ^ l.confirmationCount := by
  unfold lockout initialLockout
  apply Nat.mod_eq_of_lt
  simp only [maxLockoutHistory] at hle
  exact Nat.pow_lt_pow_right (by omega) (by omega)

end

lemma lastLockedOutSlot_le_of_count_le {a b : Lockout} (hslot : a.slot = b.slot)
    (hab : a.confirmationCount ≤ b.confirmationCount)
    (hb : b.confirmationCount ≤ maxLockoutHistory) :
    a.lastLockedOutSlot ≤ b.lastLockedOutSlot := by
  have hpow : a.lockout ≤ b.lockout := by
    rw [lockout_eq_pow a (hab.trans hb), lockout_eq_pow b hb]
    exact Nat.pow_le_pow_right (by omega) hab
  unfold lastLockedOutSlot saturatingAddU64
  rw [hslot]
  exact min_le_min_right _ (Nat.add_le_add_left hpow _)

lemma TowerShape.push (h : TowerShape ls) (hlen : ls.length < maxLockoutHistory) (s : Slot)
    (hs : ∀ l ∈ ls.getLast?, l.slot < s ∧ s ≤ l.lastLockedOutSlot) :
    TowerShape ((ls ++ [new s]).mapIdx (doubledLockout (ls.length + 1))) := by
  have hcount : ∀ i (hi : i < ls.length),
      (doubledLockout (ls.length + 1) i ls[i]).confirmationCount =
        max ls[i].confirmationCount (ls.length + 1 - i) := by
    intro i hi
    have hd := h.depth_le i hi
    exact doubledLockout_count _ _ _ (h.count_le _ (getElem_mem hi)) (by omega)
  have hnew : doubledLockout (ls.length + 1) ls.length (new s) = new s := by
    simp [doubledLockout, new, newWithConfirmationCount]
  have hcount_le : ∀ i (hi : i < ls.length),
      (doubledLockout (ls.length + 1) i ls[i]).confirmationCount ≤ maxLockoutHistory := by
    intro i hi
    have := h.count_le _ (getElem_mem hi)
    rw [hcount i hi]
    omega
  have hcounts : ∀ l ∈ (ls ++ [new s]).mapIdx (doubledLockout (ls.length + 1)),
      1 ≤ l.confirmationCount ∧ l.confirmationCount ≤ maxLockoutHistory := by
    intro l hl
    obtain ⟨i, hi, rfl⟩ := mem_mapIdx.1 hl
    simp only [length_append, length_singleton] at hi
    by_cases hil : i < ls.length
    · rw [getElem_append_left hil]
      exact ⟨by rw [hcount i hil]; omega, hcount_le i hil⟩
    · obtain rfl : i = ls.length := by omega
      simp only [getElem_concat_length, hnew]
      exact ⟨le_refl 1, by simp [new, newWithConfirmationCount, maxLockoutHistory]⟩
  refine ⟨by simp only [length_mapIdx, length_append, length_singleton]; omega,
    ?_, fun l hl => (hcounts l hl).1, fun l hl => (hcounts l hl).2⟩
  · rw [isChain_iff_getElem]
    intro i hi
    simp only [length_mapIdx, length_append, length_singleton] at hi
    have hil : i < ls.length := by omega
    have hold : ls[i].lastLockedOutSlot ≤
        (doubledLockout (ls.length + 1) i ls[i]).lastLockedOutSlot :=
      lastLockedOutSlot_le_of_count_le (doubledLockout_slot _ _ _).symm
        (by rw [hcount i hil]; exact le_max_left _ _) (hcount_le i hil)
    by_cases hi' : i + 1 < ls.length
    · have hsup := isChain_iff_getElem.1 h.chain i hi'
      simp only [getElem_mapIdx, getElem_append_left hil, getElem_append_left hi']
      refine ⟨?_, ?_, ?_⟩
      · rw [doubledLockout_slot, doubledLockout_slot]
        exact hsup.slot_lt
      · rw [hcount i hil, hcount (i + 1) hi']
        have := hsup.count_gt
        omega
      · rw [doubledLockout_slot]
        exact hsup.not_expired.trans hold
    · have hlast : i + 1 = ls.length := by omega
      have hmem : ls[i] ∈ ls.getLast? := by
        rw [getLast?_eq_getElem?]
        simp [← hlast]
      obtain ⟨hlt, hlock⟩ := hs _ hmem
      have hbound : i + 1 < (ls ++ [new s]).length := by
        simp
        omega
      have hnext : (ls ++ [new s])[i + 1] = new s := by
        simp [hlast]
      simp only [getElem_mapIdx, getElem_append_left hil, hnext]
      rw [hlast, hnew]
      refine ⟨?_, ?_, hlock.trans hold⟩
      · rw [doubledLockout_slot]
        exact hlt
      · rw [hcount i hil]
        simp only [new, newWithConfirmationCount]
        omega

end Nuah.Proofs
