import Nuah.Proofs.RollingSet

/-!
# The predecessor in a rolling bit field

The search of `get_prior` does not reach key 0 from above, and for the bound 0 it begins there: key 0
is missed below other bounds than 1, and returned for the bound 0. Other keys are found.
-/

namespace Nuah.Proofs

open RollingBitField

variable {s t : RollingBitField} {set : Finset Nat} {key min : Nat}

/-- The greatest key of the set below the bound, or nothing if there is none. -/
def IsPrior (set : Finset Nat) (bound : Nat) : Option Nat → Prop
  | some k => IsGreatest {k | k ∈ set ∧ k < bound} k
  | none => ∀ k ∈ set, bound ≤ k

lemma priorFrom_spec (h : Refines s set) (hmin : ∀ k ∈ set, min ≤ k) (slot : Nat) :
    (∀ k, s.priorFrom min slot = some k →
      k ∈ set ∧ k ≤ slot ∧ (∀ k' ∈ set, k' ≤ slot → k' ≤ k) ∧ (k = 0 → slot = 0)) ∧
    (s.priorFrom min slot = none → ∀ k ∈ set, k ≤ slot → k = 0 ∧ 0 < slot) := by
  induction slot with
  | zero =>
    unfold priorFrom
    split_ifs with hzero
    · refine ⟨?_, nofun⟩
      rintro k ⟨⟩
      exact ⟨(h.contains 0).1 hzero, le_rfl, fun _ _ hle => hle, fun _ => rfl⟩
    · refine ⟨nofun, fun _ k hk hle => ?_⟩
      rw [Nat.le_zero.1 hle, ← h.contains] at hk
      exact absurd hk hzero
  | succ slot ih =>
    unfold priorFrom
    -- a key that is not the last slot is below it
    have hbelow : ¬s.contains (slot + 1) = true → ∀ k ∈ set, k ≤ slot + 1 → k ≤ slot := by
      intro hnot k hk hle
      refine Nat.le_of_lt_succ (lt_of_le_of_ne hle ?_)
      rintro rfl
      exact hnot ((h.contains _).2 hk)
    split_ifs with hfound hstop
    · refine ⟨?_, nofun⟩
      rintro k ⟨⟩
      exact ⟨(h.contains _).1 hfound, le_rfl, fun _ _ hle => hle, nofun⟩
    · refine ⟨nofun, fun _ k hk hle => ?_⟩
      have hle := hbelow hfound k hk hle
      have hge := hmin k hk
      omega
    · refine ⟨fun k hk => ?_, fun hnone k hk hle => ?_⟩
      · obtain ⟨hmem, hle, hgreatest, hzero⟩ := ih.1 k hk
        exact ⟨hmem, hle.trans (Nat.le_succ _),
          fun k' hk' hle' => hgreatest k' hk' (hbelow hfound k' hk' hle'), fun h0 => by
            have := hzero h0
            omega⟩
      · exact ⟨(ih.2 hnone k hk (hbelow hfound k hk hle)).1, Nat.succ_pos _⟩

lemma getPrior_isPrior_iff (h : Refines s set) (bound : Nat) :
    IsPrior set bound (s.getPrior bound) ↔
      (0 ∈ set → bound = 1 ∨ ∃ k ∈ set, 0 < k ∧ k < bound) := by
  unfold getPrior
  cases hmin : s.min? with
  | none =>
    have hempty : ∀ k, k ∉ set := fun k hk => by
      rw [(h.min _).2 (set.isLeast_min' ⟨k, hk⟩)] at hmin
      cases hmin
    exact ⟨fun _ hzero => absurd hzero (hempty 0), fun _ k hk => absurd hk (hempty k)⟩
  | some min =>
    obtain ⟨hsome, hnone⟩ := priorFrom_spec h (fun k hk => ((h.min min).1 hmin).2 hk) (bound - 1)
    change IsPrior set bound (s.priorFrom min (bound - 1)) ↔ _
    cases hprior : s.priorFrom min (bound - 1) with
    | some k =>
      obtain ⟨hmem, hle, hgreatest, hzero⟩ := hsome k hprior
      constructor
      · rintro ⟨⟨-, hlt⟩, -⟩ -
        rcases Nat.eq_zero_or_pos k with rfl | hpos
        · have := hzero rfl
          omega
        · exact .inr ⟨k, hmem, hpos, hlt⟩
      · intro hreached
        refine ⟨⟨hmem, ?_⟩, fun k' hk' => hgreatest k' hk'.1 (by have := hk'.2; omega)⟩
        by_contra hge
        obtain rfl : k = 0 := by omega
        rcases hreached hmem with rfl | ⟨k', -, -, hlt⟩
        · omega
        · omega
    | none =>
      have hnone := hnone hprior
      constructor
      · intro hall hzero
        have := hall 0 hzero
        have := (hnone 0 hzero (Nat.zero_le _)).2
        omega
      · intro hreached k hk
        by_contra hlt
        obtain ⟨rfl, hpos⟩ := hnone k hk (by omega)
        rcases hreached hk with rfl | ⟨k', hk', hpos', hlt'⟩
        · omega
        · have := (hnone k' hk' (by omega)).1
          omega

/-- The keys that the calls insert, in their order. -/
def insertedKeys (calls : List SetCall) : List Nat :=
  calls.filterMap fun call => match call with
    | .insert key => some key
    | .remove _ => none

section

variable (h : Rolling s)

include h

lemma insert_max (hnew : key ∉ s.itemsInRange) (hmin : s.itemsInRange ≠ [] → s.min ≤ key)
    (hge : u64Max ≤ key) : s.insert key = none := by
  have hnext : checkedAddU64 key 1 = none := if_neg (by omega)
  unfold RollingBitField.insert
  by_cases hnil : s.itemsInRange = []
  · rw [if_pos (.inr (h.allItemsInExcess_iff.2 hnil)), updateBits, h.not_contains_of_nil hnil, hnext]
    rfl
  · have hmin := hmin hnil
    rw [if_neg (h.not_bitsEmpty (h.min_lt hnil)), if_neg (Nat.not_lt.2 hmin)]
    split_ifs with hin
    · have hbit : s.containsAssumeInRange key = false :=
        Bool.eq_false_iff.2 fun hbit => hnew (mem_itemsInRange.2 ⟨hmin, hin, hbit⟩)
      rw [updateBits, hbit, hnext]
      rfl
    · rw [hnext]
      rfl

/-- A key above all others is inserted unless an addition overflows. -/
lemma insert_added (hle : ∀ k ∈ members s, k ≤ key) (hexcess : ∀ e ∈ s.excess, e < key)
    (hinsert : s.insert key = some t) : Added s key t ∧ t.min ≤ key := by
  have hmin : s.itemsInRange ≠ [] → s.min ≤ key := fun hnil =>
    hle s.min (mem_members.2 (.inr (h.min_mem (h.min_lt hnil))))
  suffices hadded : Added s key t by
    refine ⟨hadded, hadded.min_le fun hlt => hmin ?_⟩
    exact List.ne_nil_of_mem (h.min_mem hlt)
  have hkey : key ∉ s.itemsInRange → key < u64Max := by
    intro hnew
    by_contra hge
    rw [insert_max h hnew hmin (Nat.not_lt.1 hge)] at hinsert
    cases hinsert
  have hfits : Fits s key := by
    refine ⟨fun _ => hexcess, fun hle hnew => ?_⟩
    by_contra hover
    have hnil : s.itemsInRange ≠ [] := by
      intro hnil
      refine hover fun b hb => ?_
      rw [hnil] at hb
      cases hb
    rw [insert_eq_none h (hkey hnew) hnil hle hnew hover] at hinsert
    cases hinsert
  obtain ⟨t', hinsert', hadded⟩ := insert_of_fits h hkey hfits
  cases hinsert.symm.trans hinsert'
  exact hadded

end

lemma excess_purge (s : RollingBitField) (key : Nat) : (s.purge key).excess = s.excess := by
  unfold purge
  split_ifs
  · split <;> rfl
  · rfl
  · rfl

lemma excess_remove_subset (s : RollingBitField) (key : Nat) :
    (s.remove key).2.excess ⊆ s.excess := by
  unfold remove
  split_ifs
  · rw [excess_purge]
    exact List.Subset.refl _
  · exact List.Subset.refl _
  · exact List.Subset.refl _
  · exact List.erase_subset
  · exact List.Subset.refl _

lemma execCalls_increasing {calls : List SetCall} (h : Rolling s)
    (hincreasing : (insertedKeys calls).Pairwise (· ≤ ·))
    (hle : ∀ key ∈ insertedKeys calls, (∀ k ∈ members s, k ≤ key) ∧ ∀ e ∈ s.excess, e < key)
    (hexec : execCalls s calls = some t) :
    Rolling t ∧ members t = applyCalls (members s) calls := by
  induction calls generalizing s with
  | nil =>
    cases hexec
    exact ⟨h, rfl⟩
  | cons call calls ih =>
    obtain ⟨u, hu, htail⟩ := Option.bind_eq_some_iff.1 hexec
    cases call with
    | insert key =>
      obtain ⟨hfirst, hrest⟩ := List.pairwise_cons.1 hincreasing
      obtain ⟨hbelow, hexcess⟩ := hle key List.mem_cons_self
      obtain ⟨hadded, hmin⟩ := insert_added h hbelow hexcess hu
      have hrun := ih hadded.rolling hrest ?_ htail
      · rw [hadded.members_eq] at hrun
        exact hrun
      · intro next hnext
        have hnext := hfirst next hnext
        refine ⟨fun k hk => ?_, fun e he => ?_⟩
        · rw [hadded.members_eq] at hk
          rcases Finset.mem_insert.1 hk with rfl | hk
          · exact hnext
          · exact (hbelow k hk).trans hnext
        · have := hadded.rolling.below e he
          omega
    | remove key =>
      cases hu
      obtain ⟨hrolling, hmembers, -⟩ := remove_spec h key
      have hrun := ih hrolling hincreasing ?_ htail
      · rw [hmembers] at hrun
        exact hrun
      · intro next hnext
        obtain ⟨hbelow, hexcess⟩ := hle next hnext
        refine ⟨fun k hk => hbelow k ?_, fun e he => hexcess e (excess_remove_subset s key he)⟩
        rw [hmembers] at hk
        exact Finset.mem_of_mem_erase hk

/-- After insertions in increasing order, and removals in between, the predecessor is found exactly
if it is not key 0, which is found for the bound 1 only. -/
theorem getPrior_correct_iff {width : Nat} {calls : List SetCall} (hnew : new width = some s)
    (hincreasing : (insertedKeys calls).Pairwise (· ≤ ·)) (hexec : execCalls s calls = some t)
    (bound : Nat) :
    IsPrior (applyCalls ∅ calls) bound (t.getPrior bound) ↔
      (0 ∈ applyCalls ∅ calls → bound = 1 ∨ ∃ k ∈ applyCalls ∅ calls, 0 < k ∧ k < bound) := by
  obtain ⟨hrolling, hempty⟩ := new_rolling hnew
  have hrun := execCalls_increasing hrolling hincreasing ?_ hexec
  · rw [hempty] at hrun
    rw [← hrun.2]
    exact getPrior_isPrior_iff hrun.1.refines bound
  · have hnone : ∀ k, k ∉ members s := fun k => hempty ▸ Finset.notMem_empty k
    exact fun _ _ => ⟨fun k hk => absurd hk (hnone k),
      fun e he => absurd (mem_members.2 (.inl he)) (hnone e)⟩

/-- Below key 9 is key 5, which was moved out of the window. -/
theorem getPrior_correct_moved :
    ∃ s t, new 4 = some s ∧ execCalls s [.insert 5, .insert 10, .remove 10, .insert 12] = some t ∧
      IsPrior (applyCalls ∅ [.insert 5, .insert 10, .remove 10, .insert 12]) 9 (t.getPrior 9) := by
  have hnew : new 4 = some ⟨4, 0, 0, List.replicate 4 false, 0, []⟩ := rfl
  exact ⟨_, _, hnew, rfl, (getPrior_correct_iff hnew (by decide) rfl 9).2 (by decide)⟩

/-- Key 0 is not found below key 3, and found below key 0. -/
theorem getPrior_misses_zero :
    ∃ s t, new 4 = some s ∧ execCalls s [.insert 0] = some t ∧
      ¬IsPrior (applyCalls ∅ [.insert 0]) 3 (t.getPrior 3) ∧
      ¬IsPrior (applyCalls ∅ [.insert 0]) 0 (t.getPrior 0) := by
  refine ⟨_, _, rfl, rfl, fun h => ?_, fun h => ?_⟩
  · exact absurd (h 0 (Finset.mem_singleton_self 0)) (by decide)
  · exact absurd h.1.2 (by decide)

end Nuah.Proofs
