import Nuah.Proofs.LegacyVotes

/-!
# Vote state updates

A successful `do_process_vote_state_update` replaces the tower by one that was checked vote
by vote, that keeps the last slot of the update, and that does not roll back what the old
tower is still locked out on.
-/

namespace Nuah.Proofs
open LandedVote List

variable {lockouts : List Lockout} {earliest : Slot} {c c' : UpdateCursor}
  {update : VoteStateUpdate} {newState new : List LandedVote} {epoch : Epoch}
  {featureSet : Option FeatureSet} {v : LandedVote} {timely legacy : Bool}

variable {vs vs' : VoteState} {slotHashes : SlotHashes} {newRoot : Option Slot}

variable {slot : Slot}

/-- The indexes to filter point to lockouts below the slot hash history. -/
def FiltersOnlyOld (lockouts : List Lockout) (earliest : Slot) (c : UpdateCursor) : Prop :=
  ∀ i ∈ c.indexesToFilter, ∃ l, lockouts[i]? = some l ∧ l.slot < earliest

lemma checkUpdateStep_filters (h : FiltersOnlyOld lockouts earliest c)
    (hok : checkUpdateStep vs lockouts slotHashes earliest c = .ok c') :
    FiltersOnlyOld lockouts earliest c' := by
  obtain ⟨lockout, hlockout, hok⟩ := bind_eq_ok.1 hok
  rw [indexOrPanic_eq_ok] at hlockout
  dsimp only at hok
  obtain ⟨_, -, hok⟩ := bind_eq_ok.1 hok
  obtain ⟨⟨ancestorSlot, _⟩, -, hok⟩ := bind_eq_ok.1 hok
  dsimp only at hok
  split at hok
  · split at hok
    · obtain ⟨_, hold, hok⟩ := bind_eq_ok.1 hok
      rw [assertOrPanic_eq_ok, decide_eq_true_eq] at hold
      split at hok
      · rename_i root hroot
        obtain ⟨_, -, hok⟩ := bind_eq_ok.1 hok
        obtain ⟨_, -, hok⟩ := bind_eq_ok.1 hok
        cases hok
        simpa [FiltersOnlyOld, hroot] using h
      · rename_i hroot
        cases hok
        rw [hroot, Option.getD_none] at hold
        intro i hi
        dsimp only at hi
        split at hi
        · rcases mem_append.1 hi with hi | hi
          · exact h i hi
          · obtain rfl := mem_singleton.1 hi
            exact ⟨lockout, hlockout, hold⟩
        · exact h i hi
    · split at hok <;> simp [failWith] at hok
  · cases hok
    exact h
  · split at hok
    all_goals
      cases hok
      exact h

variable (fuel : Nat)

lemma checkUpdateLoop_filters (h : FiltersOnlyOld lockouts earliest c)
    (hok : checkUpdateLoop vs lockouts slotHashes earliest fuel c = .ok c') :
    FiltersOnlyOld lockouts earliest c' := by
  induction fuel generalizing c with
  | zero =>
    cases hok
    exact h
  | succ fuel ih =>
    unfold checkUpdateLoop at hok
    split at hok
    · obtain ⟨c₁, hstep, hok⟩ := bind_eq_ok.1 hok
      exact ih (checkUpdateStep_filters h hstep) hok
    · cases hok
      exact h

lemma retainUnfiltered_getLast (indexesToFilter : List Nat) (lockouts : List Lockout) (f n : Nat)
    (last : Lockout) (hlast : lockouts.getLast? = some last)
    (hkeep : n + (lockouts.length - 1) ∉ indexesToFilter) :
    (retainUnfiltered indexesToFilter f n lockouts).getLast? = some last := by
  induction lockouts generalizing f n with
  | nil => simp at hlast
  | cons lockout rest ih =>
    by_cases hnil : rest = []
    · subst hnil
      obtain rfl : lockout = last := by simpa using hlast
      have hne : indexesToFilter[f]? ≠ some n := fun heq => hkeep (by
        simpa using mem_of_getElem? heq)
      simp [retainUnfiltered, hne]
    · have hpos : 0 < rest.length := length_pos_iff.2 hnil
      have hrest : rest.getLast? = some last := by
        rwa [getLast?_cons_of_ne_nil hnil] at hlast
      have hkeep' : n + 1 + (rest.length - 1) ∉ indexesToFilter := by
        rw [length_cons] at hkeep
        rwa [show n + 1 + (rest.length - 1) = n + (rest.length + 1 - 1) by omega]
      have hcons : ∀ f', (lockout :: retainUnfiltered indexesToFilter f' (n + 1) rest).getLast? =
          some last := by
        intro f'
        simp [getLast?_cons, ih f' (n + 1) hrest hkeep']
      unfold retainUnfiltered
      split
      · exact hcons f
      · split
        · exact ih (f + 1) (n + 1) hrest hkeep'
        · exact hcons f

lemma checkUpdateVoteStateSlotsAreValid_ok {checked : VoteStateUpdate}
    (hok : checkUpdateVoteStateSlotsAreValid vs update slotHashes = .ok checked) :
    ∃ last, checked.lockouts.getLast? = some last ∧
      ∀ s, vs.lastVotedSlot = some s → s < last.slot := by
  unfold checkUpdateVoteStateSlotsAreValid at hok
  split at hok
  · simp [failWith] at hok
  · rename_i last hlast
    obtain ⟨hnew, hok⟩ := ite_error_eq_ok.1 hok
    split at hok
    · simp [failWith] at hok
    · rename_i earliest _ hearliest
      obtain ⟨hrecent, hok⟩ := ite_error_eq_ok.1 hok
      obtain ⟨c, hloop, hok⟩ := bind_eq_ok.1 hok
      obtain ⟨-, hok⟩ := ite_error_eq_ok.1 hok
      obtain ⟨⟨slot, hash⟩, -, hok⟩ := bind_eq_ok.1 hok
      obtain ⟨_, -, hok⟩ := bind_eq_ok.1 hok
      obtain ⟨-, hok⟩ := ite_error_eq_ok.1 hok
      cases hok
      refine ⟨last, ?_, ?_⟩
      · apply retainUnfiltered_getLast _ _ _ _ _ hlast
        intro hmem
        obtain ⟨l, hl, hlt⟩ := checkUpdateLoop_filters _ (by simp [FiltersOnlyOld]) hloop _ hmem
        rw [getLast?_eq_getElem?] at hlast
        rw [Nat.zero_add, hlast] at hl
        cases hl
        exact hrecent hlt
      · intro s hs
        obtain ⟨v, hv, rfl⟩ := lastVotedSlot_eq_some.1 hs
        simpa [hv] using hnew

lemma checkNewVotes_ok (newRoot : Option Slot) (votes : List LandedVote) (previous : Option LandedVote)
    (hok : checkNewVotes newRoot previous votes = .ok ()) :
    (previous.toList ++ votes).IsChain (fun a b => Supports a.lockout b.lockout) ∧
      ∀ v ∈ votes, 1 ≤ v.confirmationCount ∧ v.confirmationCount ≤ maxLockoutHistory ∧
        ∀ r, newRoot = some r → r ≠ 0 → r < v.slot := by
  induction votes generalizing previous with
  | nil => cases previous <;> simp
  | cons vote rest ih =>
    obtain ⟨hpos, hok⟩ := ite_error_eq_ok.1 hok
    obtain ⟨hmax, hok⟩ := ite_error_eq_ok.1 hok
    obtain ⟨hroot, hok⟩ := ite_error_eq_ok.1 hok
    have hvote : 1 ≤ vote.confirmationCount ∧ vote.confirmationCount ≤ maxLockoutHistory ∧
        ∀ r, newRoot = some r → r ≠ 0 → r < vote.slot := by
      refine ⟨Nat.pos_of_ne_zero hpos, Nat.le_of_not_lt hmax, ?_⟩
      intro r hr hr0
      by_contra hle
      exact hroot (by simp [hr, hr0, Nat.le_of_not_lt hle])
    cases previous with
    | none =>
      obtain ⟨hchain, hall⟩ := ih _ hok
      exact ⟨by simpa using hchain, by simpa using ⟨hvote, hall⟩⟩
    | some previous =>
      obtain ⟨hslot, hok⟩ := ite_error_eq_ok.1 hok
      obtain ⟨hcount, hok⟩ := ite_error_eq_ok.1 hok
      obtain ⟨hlocked, hok⟩ := ite_error_eq_ok.1 hok
      obtain ⟨hchain, hall⟩ := ih _ hok
      have hsupports : Supports previous.lockout vote.lockout :=
        ⟨Nat.lt_of_not_le hslot, Nat.lt_of_not_le hcount, Nat.le_of_not_lt hlocked⟩
      refine ⟨?_, by simpa using ⟨hvote, hall⟩⟩
      simpa [isChain_cons_cons] using ⟨hsupports, hchain⟩

lemma checkRootRollBack_ok {currentRoot : Option Slot}
    (hok : checkRootRollBack newRoot currentRoot = .ok ()) : RootLe currentRoot newRoot := by
  intro r hr
  subst hr
  unfold checkRootRollBack at hok
  split at hok
  · rename_i root current heq
    cases heq
    exact ⟨root, rfl, Nat.le_of_not_lt (ite_error_eq_ok.1 hok).1⟩
  · simp [failWith] at hok
  · rename_i heq
    simp at heq

lemma mergeVotes_lockouts (current new merged : List LandedVote)
    (hok : mergeVotes fuel current new = .ok merged) :
    merged.map lockout = new.map lockout := by
  induction fuel generalizing current new merged with
  | zero =>
    cases hok
    rfl
  | succ fuel ih =>
    unfold mergeVotes at hok
    split at hok
    · simp at *
    · cases hok
      rfl
    · cases hok
      rfl
    · rename_i fuel' currentVote current newVote new hfuel
      obtain rfl : fuel = fuel' := by omega
      split at hok
      · exact ih _ _ _ (ite_error_eq_ok.1 hok).2
      · obtain ⟨rest, hrest, hok⟩ := bind_eq_ok.1 (ite_error_eq_ok.1 hok).2
        cases hok
        simp [ih _ _ _ hrest]
      · obtain ⟨rest, hrest, hok⟩ := bind_eq_ok.1 hok
        cases hok
        simp [ih _ _ _ hrest]

lemma setNewLatencies_lockouts (currentSlot : Slot) (new : List LandedVote) :
    (setNewLatencies currentSlot new).map lockout = new.map lockout := by
  unfold setNewLatencies
  rw [map_map]
  apply map_congr_left
  intro v _
  dsimp only [Function.comp_apply]
  split <;> rfl

/-- What a successful replacement has checked, and what it leaves. -/
structure Replaced (vs : VoteState) (newState : List LandedVote) (newRoot : Option Slot)
    (vs' : VoteState) : Prop where
  nonempty : newState ≠ []
  shape : TowerShape (newState.map lockout)
  root_below : ∀ r, newRoot = some r → r ≠ 0 → ∀ v ∈ newState, r < v.slot
  root_le : RootLe vs.rootSlot newRoot
  lockouts_eq : lockoutsOf vs' = newState.map lockout
  rootSlot_eq : vs'.rootSlot = newRoot
  merged : ∃ timely legacy index credits merged,
    rootCredits vs newRoot timely legacy = .ok (index, credits) ∧
      mergeVotes (vs.votes.length + newState.length) (vs.votes.drop index) newState = .ok merged

lemma processNewVoteState_ok {timestamp : Option UnixTimestamp} {currentSlot : Slot}
    (hok : processNewVoteState vs newState newRoot timestamp epoch currentSlot featureSet = .ok vs') :
    Replaced vs newState newRoot vs' := by
  obtain ⟨_, hassert, hok⟩ := bind_eq_ok.1 hok
  rw [assertOrPanic_eq_ok] at hassert
  obtain ⟨hlen, hok⟩ := ite_error_eq_ok.1 hok
  obtain ⟨_, hrollback, hok⟩ := bind_eq_ok.1 hok
  obtain ⟨_, hvotes, hok⟩ := bind_eq_ok.1 hok
  dsimp only at hok
  obtain ⟨⟨index, credits⟩, hcredits, hok⟩ := bind_eq_ok.1 hok
  obtain ⟨merged, hmerge, hok⟩ := bind_eq_ok.1 hok
  obtain ⟨stamped, -, hok⟩ := bind_eq_ok.1 hok
  cases hok
  obtain ⟨hchain, hall⟩ := checkNewVotes_ok newRoot newState none hvotes
  refine ⟨by simpa using hassert, ⟨?_, ?_, ?_, ?_⟩, ?_, checkRootRollBack_ok hrollback, ?_, rfl,
    ⟨_, _, index, credits, merged, hcredits, hmerge⟩⟩
  · simpa using hlen
  · simpa [isChain_map] using hchain
  · exact forall_mem_map.2 fun v hv => (hall v hv).1
  · exact forall_mem_map.2 fun v hv => (hall v hv).2.1
  · intro r hr hr0 v hv
    exact (hall v hv).2.2 r hr hr0
  · unfold lockoutsOf
    dsimp only
    split
    · rw [setNewLatencies_lockouts, mergeVotes_lockouts _ _ _ _ hmerge]
    · exact mergeVotes_lockouts _ _ _ _ hmerge

lemma doProcessVoteStateUpdate_ok
    (hok : doProcessVoteStateUpdate vs slotHashes epoch slot update featureSet = .ok vs') :
    ∃ newState newRoot m, Replaced vs newState newRoot vs' ∧ vs'.lastVotedSlot = some m ∧
      ∀ last, vs.lastVotedSlot = some last → last < m := by
  obtain ⟨checked, hcheck, hok⟩ := bind_eq_ok.1 hok
  obtain ⟨last, hlast, habove⟩ := checkUpdateVoteStateSlotsAreValid_ok hcheck
  have hreplaced := processNewVoteState_ok hok
  refine ⟨_, _, last.slot, hreplaced, ?_, habove⟩
  have heq : lockoutsOf vs' = checked.lockouts := by
    rw [hreplaced.lockouts_eq, map_map]
    exact map_id checked.lockouts
  calc vs'.lastVotedSlot = (lockoutsOf vs').getLast?.map Lockout.slot := by
        simp [VoteState.lastVotedSlot, VoteState.lastLockout, lockoutsOf, getLast?_map]
    _ = some last.slot := by rw [heq, hlast]; rfl

lemma Replaced.exists_slot_eq (h : Replaced vs newState newRoot vs') (hv : v ∈ vs'.votes) :
    ∃ w ∈ newState, w.slot = v.slot := by
  have hmem : v.lockout ∈ lockoutsOf vs' := mem_map_of_mem hv
  rw [h.lockouts_eq] at hmem
  obtain ⟨w, hw, heq⟩ := mem_map.1 hmem
  exact ⟨w, hw, congrArg Lockout.slot heq⟩

lemma Replaced.tower (h : Replaced vs newState newRoot vs') : AccountTower vs' := by
  refine ⟨TowerInvariant.of_shape (h.lockouts_eq ▸ h.shape) ?_, ?_⟩
  · intro r hr hr0 v hv
    obtain ⟨w, hw, heq⟩ := h.exists_slot_eq hv
    rw [← heq]
    exact h.root_below r (h.rootSlot_eq ▸ hr) hr0 w hw
  · intro hnil
    have hlock := h.lockouts_eq
    rw [lockoutsOf, hnil] at hlock
    exact absurd (map_eq_nil_iff.1 hlock.symm) h.nonempty

theorem doProcessVoteStateUpdate_progress
    (hok : doProcessVoteStateUpdate vs slotHashes epoch slot update featureSet = .ok vs') :
    TowerProgress vs vs' ∧
      ∃ m, vs'.lastVotedSlot = some m ∧ ∀ last, vs.lastVotedSlot = some last → last < m := by
  obtain ⟨newState, newRoot, m, hreplaced, hm, habove⟩ := doProcessVoteStateUpdate_ok hok
  refine ⟨⟨hreplaced.tower, ?_, fun last hlast => ⟨m, hm, (habove last hlast).le⟩⟩, m, hm, habove⟩
  rw [hreplaced.rootSlot_eq]
  exact hreplaced.root_le

/-- The new votes honour an old one: they keep its slot with at least its confirmations, or
they continue only after it expired. -/
def Honours (new : List LandedVote) (v : LandedVote) : Prop :=
  (∃ t ∈ new, t.slot = v.slot ∧ v.confirmationCount ≤ t.confirmationCount) ∨
    (∃ t ∈ new, v.slot < t.slot ∧ (∀ t' ∈ new, v.slot < t'.slot → t.slot ≤ t'.slot) ∧
      v.lockout.lastLockedOutSlot < t.slot)

lemma Honours.cons {newVote : LandedVote} (h : Honours new v) (hle : newVote.slot ≤ v.slot) :
    Honours (newVote :: new) v := by
  obtain ⟨t, ht, hkept⟩ | ⟨t, ht, hlt, hleast, hexpired⟩ := h
  · exact .inl ⟨t, mem_cons_of_mem _ ht, hkept⟩
  · refine .inr ⟨t, mem_cons_of_mem _ ht, hlt, forall_mem_cons.2 ⟨?_, hleast⟩, hexpired⟩
    exact fun hlt' => absurd hlt' (Nat.not_lt.2 hle)

lemma Honours.congr {new' : List LandedVote} (h : Honours new v)
    (heq : new.map lockout = new'.map lockout) : Honours new' v := by
  have hiff : ∀ new, Honours new v ↔
      (∃ l ∈ new.map lockout, l.slot = v.slot ∧ v.confirmationCount ≤ l.confirmationCount) ∨
        ∃ l ∈ new.map lockout, v.slot < l.slot ∧
          (∀ l' ∈ new.map lockout, v.slot < l'.slot → l.slot ≤ l'.slot) ∧
          v.lockout.lastLockedOutSlot < l.slot := by
    intro new
    simp only [forall_mem_map]
    simp only [mem_map, exists_exists_and_eq_and]
    rfl
  rwa [hiff, ← heq, ← hiff]

/-- The walk ends before the new votes do, since the last of them is above all current
votes; so each current vote is looked at. -/
lemma mergeVotes_honours (current new merged : List LandedVote)
    (hfuel : current.length + new.length ≤ fuel)
    (hcurrent : current.Pairwise (fun a b => a.slot < b.slot))
    (hnew : new.Pairwise (fun a b => a.slot < b.slot))
    (habove : ∀ v ∈ current, ∃ t ∈ new, v.slot < t.slot)
    (hok : mergeVotes fuel current new = .ok merged) : ∀ v ∈ current, Honours new v := by
  induction fuel generalizing current new merged with
  | zero =>
    obtain rfl : current = [] := length_eq_zero_iff.1 (by omega)
    simp
  | succ fuel ih =>
    match current, new with
    | [], new => simp
    | currentVote :: current, [] => simpa using habove currentVote
    | currentVote :: current, newVote :: new =>
      have hcurrent' := pairwise_cons.1 hcurrent
      have hnew' := pairwise_cons.1 hnew
      simp only [length_cons] at hfuel
      rw [mergeVotes] at hok
      -- the new vote is dropped once it is at or below all remaining current votes
      have hdrop : ∀ v : LandedVote, newVote.slot ≤ v.slot → (∃ t ∈ newVote :: new, v.slot < t.slot) →
          ∃ t ∈ new, v.slot < t.slot := by
        rintro v hle ⟨t, ht, hlt⟩
        rcases mem_cons.1 ht with rfl | ht
        · exact absurd hlt (Nat.not_lt.2 hle)
        · exact ⟨t, ht, hlt⟩
      split at hok
      · rename_i hcmp
        rw [Nat.compare_eq_lt] at hcmp
        obtain ⟨hexpired, hok⟩ := ite_error_eq_ok.1 hok
        have hrest := ih current (newVote :: new) merged (by simp; omega) hcurrent'.2 hnew
          (fun v hv => habove v (mem_cons_of_mem _ hv)) hok
        have hleast : ∀ t ∈ newVote :: new, currentVote.slot < t.slot → newVote.slot ≤ t.slot :=
          forall_mem_cons.2 ⟨fun _ => le_rfl, fun t ht _ => (hnew'.1 t ht).le⟩
        exact forall_mem_cons.2
          ⟨.inr ⟨newVote, mem_cons_self, hcmp, hleast, Nat.lt_of_not_le hexpired⟩, hrest⟩
      · rename_i hcmp
        rw [Nat.compare_eq_eq] at hcmp
        obtain ⟨hcount, hok⟩ := ite_error_eq_ok.1 hok
        obtain ⟨rest, hmerge, -⟩ := bind_eq_ok.1 hok
        have hle : ∀ v ∈ current, newVote.slot ≤ v.slot := fun v hv =>
          hcmp.ge.trans (hcurrent'.1 v hv).le
        have hrest := ih current new rest (by omega) hcurrent'.2 hnew'.2
          (fun v hv => hdrop v (hle v hv) (habove v (mem_cons_of_mem _ hv))) hmerge
        exact forall_mem_cons.2
          ⟨.inl ⟨newVote, mem_cons_self, hcmp.symm, Nat.le_of_not_lt hcount⟩,
            fun v hv => (hrest v hv).cons (hle v hv)⟩
      · rename_i hcmp
        rw [Nat.compare_eq_gt] at hcmp
        obtain ⟨rest, hmerge, -⟩ := bind_eq_ok.1 hok
        have hle : ∀ v ∈ currentVote :: current, newVote.slot ≤ v.slot :=
          forall_mem_cons.2 ⟨hcmp.le, fun v hv => hcmp.le.trans (hcurrent'.1 v hv).le⟩
        have hrest := ih (currentVote :: current) new rest (by simp; omega) hcurrent hnew'.2
          (fun v hv => hdrop v (hle v hv) (habove v hv)) hmerge
        exact fun v hv => (hrest v hv).cons (hle v hv)

lemma rootedVotes_ok {newRoot : Slot} (votes : List LandedVote) (i credits : Nat)
    {i' credits' : Nat}
    (hok : rootedVotes vs newRoot timely legacy votes i credits = .ok (i', credits')) :
    i ≤ i' ∧ ∀ v ∈ votes, newRoot < v.slot → v ∈ votes.drop (i' - i) := by
  induction votes generalizing i credits with
  | nil =>
    simp only [rootedVotes, Except.ok.injEq, Prod.mk.injEq] at hok
    exact ⟨hok.1.le, by simp⟩
  | cons vote rest ih =>
    have hnext : ∀ credits₁,
        rootedVotes vs newRoot timely legacy rest (i + 1) credits₁ = .ok (i', credits') →
        vote.slot ≤ newRoot →
        i ≤ i' ∧ ∀ v ∈ vote :: rest, newRoot < v.slot → v ∈ (vote :: rest).drop (i' - i) := by
      intro credits₁ hrest hle
      obtain ⟨hi, hall⟩ := ih (i + 1) credits₁ hrest
      refine ⟨by omega, ?_⟩
      intro v hv hlt
      rw [show i' - i = i' - (i + 1) + 1 by omega, drop_succ_cons]
      rcases mem_cons.1 hv with rfl | hv
      · exact absurd hlt (Nat.not_lt.2 hle)
      · exact hall v hv hlt
    unfold rootedVotes at hok
    split at hok
    · rename_i hle
      split at hok
      · split at hok
        · simp at hok
        · exact hnext _ hok hle
      · exact hnext _ hok hle
    · simp only [Except.ok.injEq, Prod.mk.injEq] at hok
      obtain rfl := hok.1
      exact ⟨le_refl i, fun v hv _ => by simpa using hv⟩

lemma rootCredits_ok {index credits : Nat}
    (hok : rootCredits vs newRoot timely legacy = .ok (index, credits)) :
    ∀ v ∈ vs.votes, (∀ r, newRoot = some r → r < v.slot) → v ∈ vs.votes.drop index := by
  intro v hv habove
  unfold rootCredits at hok
  dsimp only at hok
  split at hok
  · simp only [Except.ok.injEq, Prod.mk.injEq] at hok
    rw [← hok.1]
    exact hv
  · rename_i root
    exact (rootedVotes_ok vs.votes 0 _ hok).2 v hv (habove root rfl)

/-- A vote state update never rolls back a vote. The slot hashes may be any list. -/
theorem doProcessVoteStateUpdate_no_rollback {vs vs' : VoteState} (h : TowerInvariant vs)
    (update : VoteStateUpdate) (slotHashes : SlotHashes) (epoch : Epoch) (slot : Slot)
    (featureSet : Option FeatureSet)
    (hok : doProcessVoteStateUpdate vs slotHashes epoch slot update featureSet = .ok vs') :
    (∃ m, vs'.lastVotedSlot = some m ∧ ∀ v ∈ vs.votes, v.slot < m) ∧
      RootLe vs.rootSlot vs'.rootSlot ∧
      ∀ v ∈ vs.votes, (∀ r, vs'.rootSlot = some r → r < v.slot) → Honours vs'.votes v := by
  obtain ⟨newState, newRoot, m, hreplaced, hm, hlast⟩ := doProcessVoteStateUpdate_ok hok
  have habove : ∀ v ∈ vs.votes, v.slot < m := fun v hv => slot_lt_of_lastVotedSlot_lt h hlast hv
  refine ⟨⟨m, hm, habove⟩, hreplaced.rootSlot_eq ▸ hreplaced.root_le, ?_⟩
  intro v hv hroot
  rw [hreplaced.rootSlot_eq] at hroot
  obtain ⟨timely, legacy, index, credits, merged, hcredits, hmerge⟩ := hreplaced.merged
  obtain ⟨t', ht', rfl⟩ := lastVotedSlot_eq_some.1 hm
  obtain ⟨t, ht, htop⟩ := hreplaced.exists_slot_eq (mem_of_getLast? ht')
  have hhonours := mergeVotes_honours _ (vs.votes.drop index) newState merged
    (by simp only [length_drop]; omega) (h.slots_increasing.drop)
    ((pairwise_map (f := lockout)).1 hreplaced.shape.slots_lt)
    (fun w hw => ⟨t, ht, (habove w (mem_of_mem_drop hw)).trans_eq htop.symm⟩) hmerge
  exact (hhonours v (rootCredits_ok hcredits v hv hroot)).congr hreplaced.lockouts_eq.symm

def lockedTower : VoteState :=
  { VoteState.default with
    votes := [⟨1, ⟨1, 2⟩⟩, ⟨1, ⟨2, 1⟩⟩]
    rootSlot := some 0 }

/-- Slot 2 is dropped after its lockout ended at slot 4; slot 1 is kept. -/
def switchingUpdate : VoteStateUpdate :=
  VoteStateUpdate.new [⟨1, 3⟩, ⟨5, 2⟩, ⟨6, 1⟩] (some 0) 7

theorem switchingUpdate_no_rollback :
    ∃ vs', doProcessVoteStateUpdate lockedTower [(6, 7), (5, 8), (1, 9)] 0 7 switchingUpdate none =
        .ok vs' ∧
      Honours vs'.votes ⟨1, ⟨2, 1⟩⟩ := by
  have hinv : TowerInvariant lockedTower :=
    ⟨by decide, by decide, by decide, by decide, by decide, by simp [lockedTower]⟩
  have hok : doProcessVoteStateUpdate lockedTower [(6, 7), (5, 8), (1, 9)] 0 7 switchingUpdate none =
      .ok { lockedTower with votes := [⟨1, ⟨1, 3⟩⟩, ⟨0, ⟨5, 2⟩⟩, ⟨0, ⟨6, 1⟩⟩] } := by decide
  refine ⟨_, hok, ?_⟩
  exact (doProcessVoteStateUpdate_no_rollback hinv _ _ _ _ _ hok).2.2 _ (by decide) (by
    simp [lockedTower, slot])

end Nuah.Proofs
