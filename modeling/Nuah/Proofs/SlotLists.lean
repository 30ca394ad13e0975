import Nuah.AccountsIndex

/-!
# Updates of a slot list

The entries at the slot and at the other slot make room for the new one, wherever they stand.
-/

namespace Nuah.Proofs

open List SlotListUpdate

section

variable {T : Type} [IsCached T] (slot : Slot) (accountInfo : T) (otherSlot : Option Slot)
  (reclaim : UpsertReclaim) (reclaims : SlotList T)

def displaced (cur : Slot × T) : Bool := cur.1 == slot || some cur.1 == otherSlot

/-- An entry makes the update fail that must have been cached and was not. -/
def Refused (slotList : SlotList T) : Prop :=
  reclaim = .previousSlotEntryWasCached ∧
    ∃ cur ∈ slotList.filter (displaced slot otherSlot), ¬ isCached cur.2

/-- The state of the loop once it has been through `slotList`. -/
structure Visited (slotList : SlotList T) (update : SlotListUpdate T) : Prop where
  perm : update.slotList ~ (if slotList.any (displaced slot otherSlot) then
    [(slot, accountInfo)] else []) ++ slotList.filter (!displaced slot otherSlot ·)
  found : (update.foundSlot || update.foundOtherSlot) = slotList.any (displaced slot otherSlot)
  foundSlot : update.foundSlot → slot ∈ slotList.map Prod.fst
  foundOtherSlot : update.foundOtherSlot → ∃ s ∈ slotList.map Prod.fst, some s = otherSlot
  addref : update.addref = (!isCached accountInfo &&
    (slotList.filter (displaced slot otherSlot)).all (isCached ·.2))
  reclaims : update.reclaims = reclaims ++ if reclaim = .populateReclaims then
    (slotList.filter (displaced slot otherSlot)).reverse else []
  accepted : ¬ Refused slot otherSlot reclaim slotList

variable {slot accountInfo otherSlot reclaim reclaims} {slotList : SlotList T}
  {update : SlotListUpdate T} {cur : Slot × T}

section

variable (h : Visited slot accountInfo otherSlot reclaim reclaims slotList update)

include h

lemma Visited.kept (hdisp : displaced slot otherSlot cur = false) :
    Visited slot accountInfo otherSlot reclaim reclaims (cur :: slotList)
      { update with slotList := cur :: update.slotList } where
  perm := by
    simp only [any_cons, hdisp, Bool.false_or, filter_cons, Bool.not_false, if_true]
    exact (h.perm.cons cur).trans perm_middle.symm
  found := by simp [h.found, hdisp]
  foundSlot hfound := mem_cons_of_mem _ (h.foundSlot hfound)
  foundOtherSlot hfound := by
    obtain ⟨s, hs, heq⟩ := h.foundOtherSlot hfound
    exact ⟨s, mem_cons_of_mem _ hs, heq⟩
  addref := by simp [h.addref, hdisp]
  reclaims := by simp [h.reclaims, hdisp]
  accepted := by simpa [Refused, hdisp] using h.accepted

lemma Visited.replaced (hdisp : displaced slot otherSlot cur)
    (hcached : reclaim ≠ .previousSlotEntryWasCached ∨ isCached cur.2) :
    Visited slot accountInfo otherSlot reclaim reclaims (cur :: slotList) {
      slotList := if !(update.foundSlot || update.foundOtherSlot) then
          (slot, accountInfo) :: update.slotList
        else update.slotList
      foundSlot := update.foundSlot || cur.1 == slot
      foundOtherSlot := update.foundOtherSlot || !(cur.1 == slot)
      addref := update.addref && isCached cur.2
      reclaims := if reclaim = .populateReclaims then update.reclaims ++ [cur]
        else update.reclaims } where
  perm := by
    have hperm := h.perm
    rw [← h.found] at hperm
    simp only [any_cons, hdisp, Bool.true_or, if_true, filter_cons, Bool.not_true]
    cases hfound : update.foundSlot || update.foundOtherSlot <;> simpa [hfound] using hperm
  found := by cases hslot : cur.1 == slot <;> simp [hdisp]
  foundSlot hfound := by
    rcases Bool.or_eq_true_iff.1 hfound with hfound | heq
    · exact mem_cons_of_mem _ (h.foundSlot hfound)
    · simp [eq_of_beq heq]
  foundOtherSlot hfound := by
    rcases Bool.or_eq_true_iff.1 hfound with hfound | hne
    · obtain ⟨s, hs, heq⟩ := h.foundOtherSlot hfound
      exact ⟨s, mem_cons_of_mem _ hs, heq⟩
    · rw [displaced, Bool.or_eq_true_iff] at hdisp
      exact ⟨cur.1, mem_cons_self, by simpa using hdisp.resolve_left (by simpa using hne)⟩
  addref := by simp [h.addref, hdisp, Bool.and_comm, Bool.and_left_comm]
  reclaims := by
    rw [filter_cons_of_pos hdisp, reverse_cons, h.reclaims]
    split_ifs <;> simp
  accepted := by
    rintro ⟨hreclaim, old, hold, hnot⟩
    rw [filter_cons_of_pos hdisp] at hold
    rcases mem_cons.1 hold with rfl | hold
    · exact hnot (hcached.resolve_left (· hreclaim))
    · exact h.accepted ⟨hreclaim, old, hold, hnot⟩

/-- One turn of the loop, at a slot that it has not met. -/
lemma Visited.visit (hcur : cur.1 ∉ slotList.map Prod.fst) :
    visit slot accountInfo otherSlot reclaim cur update = none ∧
        Refused slot otherSlot reclaim (cur :: slotList) ∨
      ∃ next, visit slot accountInfo otherSlot reclaim cur update = some next ∧
        Visited slot accountInfo otherSlot reclaim reclaims (cur :: slotList) next := by
  unfold SlotListUpdate.visit
  cases hdisp : displaced slot otherSlot cur with
  | false => exact .inr ⟨_, if_neg (Bool.eq_false_iff.1 hdisp), h.kept hdisp⟩
  | true =>
    have hguard : (!(update.foundSlot && cur.1 == slot ||
        !(cur.1 == slot) && update.foundOtherSlot)) = true := by
      have hslot := h.foundSlot
      have hother := h.foundOtherSlot
      grind [displaced]
    simp only [show (cur.1 == slot || some cur.1 == otherSlot) = true from hdisp, if_true, hguard]
    by_cases hcached : (reclaim != .previousSlotEntryWasCached || isCached cur.2) = true
    · refine .inr ⟨_, ?_, h.replaced hdisp (by simpa using hcached)⟩
      simp only [hcached]
      rfl
    · refine .inl ⟨?_, ?_⟩
      · simp only [guard, hcached]
        rfl
      · simp only [Bool.or_eq_true, bne_iff_ne, not_or, not_not] at hcached
        exact ⟨hcached.1, cur, by simp [hdisp], hcached.2⟩

end

variable (slot accountInfo otherSlot reclaim reclaims) in
lemma foldrM_visit (hnodup : (slotList.map Prod.fst).Nodup) :
    let result := slotList.foldrM (visit slot accountInfo otherSlot reclaim)
      ⟨[], false, false, !isCached accountInfo, reclaims⟩
    result = none ∧ Refused slot otherSlot reclaim slotList ∨ ∃ update, result = some update ∧
      Visited slot accountInfo otherSlot reclaim reclaims slotList update := by
  dsimp only
  induction slotList with
  | nil => exact .inr ⟨_, foldrM_nil, by constructor <;> simp [Refused]⟩
  | cons cur slotList ih =>
    obtain ⟨hcur, hnodup⟩ := nodup_cons.1 hnodup
    rw [foldrM_cons]
    rcases ih hnodup with ⟨hnone, hreclaim, old, hold, hold'⟩ | ⟨update, hsome, h⟩
    · rw [hnone]
      exact .inl ⟨rfl, hreclaim, old, ((sublist_cons_self _ _).filter _).subset hold, hold'⟩
    · rw [hsome]
      exact h.visit hcur

/-- A list with nothing to replace gets the entry at its end. -/
lemma Visited.perm_result
    (h : Visited slot accountInfo otherSlot reclaim reclaims slotList update) :
    (if !update.foundSlot && !update.foundOtherSlot then update.slotList ++ [(slot, accountInfo)]
      else update.slotList) ~
      (slot, accountInfo) :: slotList.filter (!displaced slot otherSlot ·) := by
  have hperm := h.perm
  rw [← h.found] at hperm
  rw [← Bool.not_or]
  cases hfound : update.foundSlot || update.foundOtherSlot with
  | false => exact (perm_append_singleton _ _).trans (.cons _ (by simpa [hfound] using hperm))
  | true => simpa [hfound] using hperm

theorem updateSlotList_replaces (slotList : SlotList T) (slot : Slot) (accountInfo : T)
    (otherSlot : Option Slot) (reclaims : SlotList T) (reclaim : UpsertReclaim)
    (hnodup : (slotList.map Prod.fst).Nodup) :
    let removed := slotList.filter fun cur => cur.1 == slot || some cur.1 == otherSlot
    let result := updateSlotList slotList slot accountInfo otherSlot reclaims reclaim
    (result = none ↔
      reclaim = .previousSlotEntryWasCached ∧ ∃ cur ∈ removed, ¬ isCached cur.2) ∧
    ∀ slotList' reclaims' addref, result = some (slotList', reclaims', addref) →
      (slotList'.map Prod.fst).Nodup ∧
      (∀ cur, cur ∈ slotList' ↔ cur = (slot, accountInfo) ∨
        cur ∈ slotList ∧ cur.1 ≠ slot ∧ some cur.1 ≠ otherSlot) ∧
      reclaims' = reclaims ++ (if reclaim = .populateReclaims then removed.reverse else []) ∧
      (addref ↔ ¬ isCached accountInfo ∧ ∀ cur ∈ removed, isCached cur.2) := by
  intro removed result
  -- an other slot that is the slot itself asks for nothing more
  have hother : displaced (T := T) slot (if otherSlot = some slot then none else otherSlot) =
      displaced slot otherSlot := by
    funext cur
    unfold displaced
    split_ifs with heq
    · simp [heq]
    · rfl
  rcases foldrM_visit slot accountInfo (if otherSlot = some slot then none else otherSlot) reclaim
    reclaims hnodup with ⟨hnone, hrefused⟩ | ⟨update, hsome, h⟩
  · have hresult : result = none := by
      simp only [result, updateSlotList, hnone]
      rfl
    rw [Refused, hother] at hrefused
    exact ⟨iff_of_true hresult hrefused, by simp [hresult]⟩
  · have hresult : result = some (if !update.foundSlot && !update.foundOtherSlot then
        update.slotList ++ [(slot, accountInfo)] else update.slotList,
        update.reclaims, update.addref) := by
      simp only [result, updateSlotList, hsome]
      rfl
    have haccepted := h.accepted
    rw [Refused, hother] at haccepted
    refine ⟨iff_of_false (by simp [hresult]) haccepted, fun slotList' reclaims' addref heq => ?_⟩
    cases hresult.symm.trans heq
    have hperm := h.perm_result
    rw [hother] at hperm
    refine ⟨(hperm.map _).nodup_iff.2 (nodup_cons.2 ⟨?_, ?_⟩), fun cur => ?_, ?_, ?_⟩
    · simp [displaced]
    · exact hnodup.sublist (filter_sublist.map _)
    · rw [hperm.mem_iff]
      simp [displaced]
    · rw [h.reclaims, hother]
      rfl
    · rw [h.addref, hother, Bool.and_eq_true, Bool.not_eq_true', all_eq_true, Bool.not_eq_true]
      rfl

end

/-- Whether an account is in the cache, as its own information. -/
local instance cachedFlag : IsCached Bool := ⟨id⟩

theorem updateSlotList_replaces_two :
    updateSlotList [(1, true), (2, false), (3, true)] 3 false (some 1) [] .populateReclaims =
        some ([(2, false), (3, false)], [(3, true), (1, true)], true) ∧
      ∀ cur, cur ∈ [((2 : Slot), false), (3, false)] ↔ cur = (3, false) ∨
        cur ∈ [((1 : Slot), true), (2, false), (3, true)] ∧ cur.1 ≠ 3 ∧ some cur.1 ≠ some 1 :=
  ⟨by decide, ((updateSlotList_replaces [((1 : Slot), true), (2, false), (3, true)] 3 false (some 1)
    [] .populateReclaims (by decide)).2 _ _ _ rfl).2.1⟩

/-- The entry that is replaced must have been cached in one of the modes. -/
theorem updateSlotList_asserts :
    ([((1 : Slot), false)].map Prod.fst).Nodup ∧
      updateSlotList [(1, false)] 1 true none [] .previousSlotEntryWasCached = none := by
  decide

end Nuah.Proofs
