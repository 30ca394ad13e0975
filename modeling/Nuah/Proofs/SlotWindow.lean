import Nuah.SlotHistory
import Nuah.Proofs.RollingWindow

/-!
# The slot history answers for its window

Within the last `MAX_ENTRIES` slots a bit is set for the slots that were added, and for slot 0.
-/

namespace Nuah.Proofs

open List SlotHistory

variable {h h' : SlotHistory} {slots : List Nat} {slot q : Nat}

def InWindow (next q : Nat) : Prop := q < next ∧ next ≤ q + maxEntries

lemma InWindow.eq_of_mod_eq {next a b : Nat} (ha : InWindow next a) (hb : InWindow next b)
    (heq : a % maxEntries = b % maxEntries) : a = b := by
  obtain ⟨ha, ha'⟩ := ha
  obtain ⟨hb, hb'⟩ := hb
  have hlow : next - maxEntries ≤ a := by omega
  exact eq_of_address_eq hlow (by omega) (by omega) (by omega) heq

/-- The history was left by adding the slots. -/
structure Records (slots : List Nat) (h : SlotHistory) : Prop where
  next : h.nextSlot = slots.getLast?.getD 0 + 1
  lt : ∀ slot ∈ slots, slot < h.nextSlot
  bit : ∀ q, InWindow h.nextSlot q → (h.bits (q % maxEntries) = true ↔ q = 0 ∨ q ∈ slots)

lemma records_default : Records [] SlotHistory.default := by
  refine ⟨rfl, fun _ hslot => absurd hslot not_mem_nil, fun q hq => ?_⟩
  obtain rfl : q = 0 := Nat.lt_one_iff.1 hq.1
  simp [SlotHistory.default]

lemma clearSkipped_eq_true {i : Nat} :
    h.clearSkipped slot i = true ↔
      h.bits i = true ∧ ∀ k, h.nextSlot ≤ k → k < slot → k % maxEntries ≠ i := by
  have hfold : ∀ (keys : List Nat) (bits : Nat → Bool),
      keys.foldl (fun bits k => Function.update bits (k % maxEntries) false) bits i = true ↔
        bits i = true ∧ ∀ k ∈ keys, k % maxEntries ≠ i := by
    intro keys
    induction keys with
    | nil => simp
    | cons k keys ih =>
      intro bits
      rw [foldl_cons, ih, forall_mem_cons, ← and_assoc]
      refine and_congr_left fun _ => ?_
      by_cases hk : i = k % maxEntries
      · simp [hk]
      · simp [Function.update_of_ne hk, Ne.symm hk]
  rw [clearSkipped, hfold]
  refine and_congr_right fun _ => forall_congr' fun k => ?_
  rw [mem_range'_1]
  constructor
  · exact fun hk hle hlt => hk ⟨hle, by omega⟩
  · exact fun hk hmem => hk hmem.1 (by omega)

section

variable (hrec : Records slots h)

include hrec

lemma Records.not_added (hq : h.nextSlot ≤ q) : ¬ (q = 0 ∨ q ∈ slots) := by
  rintro (rfl | hmem)
  · simp [hrec.next] at hq
  · exact absurd (hrec.lt q hmem) (Nat.not_lt.2 hq)

/-- Before the new bit is set, the bits of the new window are those of slots that were added. -/
lemma Records.cleared (hnext : h.nextSlot ≤ slot) (hq : InWindow (slot + 1) q) (hlt : q < slot) :
    (if h.nextSlot < slot ∧ maxEntries ≤ slot - h.nextSlot then h.clearBlocks
      else h.clearSkipped slot) (q % maxEntries) = true ↔ q = 0 ∨ q ∈ slots := by
  have hwindow := hq.2
  split_ifs with hfar
  · have hfalse : h.clearBlocks (q % maxEntries) = false := if_pos (by unfold maxEntries; omega)
    simp [hfalse, hrec.not_added (q := q) (by omega)]
  · rw [clearSkipped_eq_true]
    rcases Nat.lt_or_ge q h.nextSlot with hold | hskip
    · rw [hrec.bit q ⟨hold, by omega⟩]
      -- a skipped slot and one that is still in the window have different addresses
      refine and_iff_left fun k hle hk heq => ?_
      have := InWindow.eq_of_mod_eq ⟨by omega, by omega⟩ hq heq
      omega
    · exact iff_of_false (fun hbit => hbit.2 q hskip hlt rfl) (hrec.not_added hskip)

lemma Records.add (hlt : ∀ s ∈ slots, s < slot)
    (hadd : h.add slot = some h') : Records (slots ++ [slot]) h' := by
  obtain ⟨next, hnext, hadd⟩ := Option.bind_eq_some_iff.1 hadd
  cases hadd
  obtain ⟨-, rfl⟩ := checkedAddU64_eq_some.1 hnext
  refine ⟨by simp, ?_, fun q hq => ?_⟩
  · simp only [mem_append, mem_singleton]
    rintro s (hs | rfl)
    · exact (hlt s hs).trans (Nat.lt_succ_self slot)
    · exact Nat.lt_succ_self s
  change InWindow (slot + 1) q at hq
  rw [mem_append, mem_singleton, ← or_assoc]
  by_cases heq : q = slot
  · simp [heq]
  · have hne : q % maxEntries ≠ slot % maxEntries := fun hsame =>
      heq (hq.eq_of_mod_eq ⟨Nat.lt_succ_self slot, by unfold maxEntries; omega⟩ hsame)
    have hq' : q < slot := lt_of_le_of_ne (Nat.le_of_lt_succ hq.1) heq
    have hnext' : h.nextSlot ≤ slot := by
      rw [hrec.next]
      cases hlast : slots.getLast? with
      | none => exact Nat.zero_lt_of_lt hq'
      | some last => exact hlt last (mem_of_getLast? hlast)
    rw [or_iff_left heq, ← hrec.cleared hnext' hq hq']
    dsimp only
    rw [Function.update_of_ne hne]

end

lemma add_isSome_iff : (∃ h', h.add slot = some h') ↔ slot < u64Max := by
  unfold SlotHistory.add checkedAddU64
  by_cases hle : slot + 1 ≤ u64Max
  · simp [hle, Nat.lt_of_succ_le hle]
  · simp [hle, mt Nat.succ_le_of_lt hle]

lemma records_foldlM (hslots : slots.Pairwise (· < ·)) :
    ((∃ h, slots.foldlM SlotHistory.add .default = some h) ↔ ∀ slot ∈ slots, slot < u64Max) ∧
      ∀ h, slots.foldlM SlotHistory.add .default = some h → Records slots h := by
  induction slots using List.reverseRecOn with
  | nil =>
    refine ⟨by simp, ?_⟩
    rintro h ⟨⟩
    exact records_default
  | append_singleton slots slot ih =>
    obtain ⟨hslots, -, hlt⟩ := pairwise_append.1 hslots
    obtain ⟨hsome, hrec⟩ := ih hslots
    have hrun : ∀ h', (slots ++ [slot]).foldlM SlotHistory.add .default = some h' ↔
        ∃ h, slots.foldlM SlotHistory.add .default = some h ∧ h.add slot = some h' := by
      simp [foldlM_append, Option.bind_eq_some_iff]
    constructor
    · simp only [hrun, forall_mem_append, forall_mem_singleton, ← hsome]
      constructor
      · rintro ⟨h', h, hh, hadd⟩
        exact ⟨⟨h, hh⟩, add_isSome_iff.1 ⟨h', hadd⟩⟩
      · rintro ⟨⟨h, hh⟩, hle⟩
        obtain ⟨h', hadd⟩ := add_isSome_iff.2 hle
        exact ⟨h', h, hh, hadd⟩
    · intro h' hh'
      obtain ⟨h, hh, hadd⟩ := (hrun h').1 hh'
      exact (hrec h hh).add (fun s hs => hlt s hs slot mem_cons_self) hadd

end Nuah.Proofs
