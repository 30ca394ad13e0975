import Nuah.Confirmation

/-!
# Ticks of a slot

What the tick verification of one call accepts, and how it depends on where a slot is cut into
calls: a cut is harmless where ticks are still missing and the running hash count is below the
number of hashes of a tick.
-/

namespace Nuah.Proofs

open Entry List

variable {hashesPerTick count count' : Nat} {entries xs ys : List (Entry ν)} {s : Nat × Nat}
  {calls : List (List (Entry ν))}

variable {ν : Type}

variable {maxTickHeight : Nat} {bankHashesPerTick : Option Nat}

lemma tickCount_append (xs ys : List (Entry ν)) :
    tickCount (xs ++ ys) = tickCount xs + tickCount ys := by
  simp [tickCount]

/-- The hash count after entries, if all their ticks came at the right count. -/
def tickHashesAfter (hashesPerTick : Nat) : Nat → List (Entry ν) → Option Nat
  | count, [] => some count
  | count, e :: entries =>
    if e.isTick then
      if saturatingAddU64 count e.numHashes = hashesPerTick then
        tickHashesAfter hashesPerTick 0 entries
      else none
    else tickHashesAfter hashesPerTick (saturatingAddU64 count e.numHashes) entries

lemma countTickHashes_eq_iff :
    countTickHashes hashesPerTick count entries = (count', true) ↔
      tickHashesAfter hashesPerTick count entries = some count' ∧ count' < hashesPerTick := by
  induction entries generalizing count with
  | nil =>
    simp only [countTickHashes, tickHashesAfter, Prod.mk.injEq, decide_eq_true_eq,
      Option.some.injEq]
    exact and_congr_right fun heq => by rw [heq]
  | cons e entries ih =>
    simp only [countTickHashes, tickHashesAfter]
    by_cases htick : e.isTick = true
    · by_cases hcount : saturatingAddU64 count e.numHashes = hashesPerTick
      · simp [htick, hcount, ih]
      · simp [htick, hcount]
    · simp [htick, ih]

lemma tickHashesAfter_append (hashesPerTick count : Nat) (xs ys : List (Entry ν)) :
    tickHashesAfter hashesPerTick count (xs ++ ys) =
      (tickHashesAfter hashesPerTick count xs).bind (tickHashesAfter hashesPerTick · ys) := by
  induction xs generalizing count with
  | nil => rfl
  | cons e xs ih =>
    simp only [cons_append, tickHashesAfter]
    split_ifs
    · exact ih 0
    · rfl
    · exact ih _

/-- The count that a call carries over; it stands still when hashing is disabled. -/
def carried (hashesPerTick count : Nat) (entries : List (Entry ν)) : Option Nat :=
  if hashesPerTick = 0 then some count else tickHashesAfter hashesPerTick count entries

lemma carried_append (hashesPerTick count : Nat) (xs ys : List (Entry ν)) :
    carried hashesPerTick count (xs ++ ys) =
      (carried hashesPerTick count xs).bind (carried hashesPerTick · ys) := by
  unfold carried
  split_ifs
  · rfl
  · exact tickHashesAfter_append hashesPerTick count xs ys

/-- All ticks of the entries, if any, and their hash counts are right so far. -/
def CountsOk (hashesPerTick count : Nat) (entries : List (Entry ν)) (count' : Nat) : Prop :=
  carried hashesPerTick count entries = some count' ∧ (hashesPerTick = 0 ∨ count' < hashesPerTick)

lemma verifyTickHashCount_eq_iff :
    verifyTickHashCount entries count hashesPerTick = (count', true) ↔
      CountsOk hashesPerTick count entries count' := by
  unfold verifyTickHashCount CountsOk carried
  by_cases h : hashesPerTick = 0
  · simp [h]
  · simp [h, countTickHashes_eq_iff]

lemma trailing_iff :
    (entries.getLast?.map fun e => !e.isTick).getD false = false ↔
      ∀ e, entries.getLast? = some e → e.isTick = true := by
  cases entries.getLast? with
  | none => simp
  | some e => simp

/-- A call accepts entries that complete the ticks of the slot exactly if it is told that the
slot is full. -/
lemma verifyTicks_eq_ok_iff {tickHeight : Nat} {slotFull : Bool} :
    verifyTicks tickHeight maxTickHeight bankHashesPerTick entries slotFull count = .ok count' ↔
      tickHeight + tickCount entries ≤ maxTickHeight ∧
      (slotFull = true ↔ tickHeight + tickCount entries = maxTickHeight) ∧
      (tickHeight + tickCount entries = maxTickHeight →
        ∀ e, entries.getLast? = some e → e.isTick = true) ∧
      CountsOk (bankHashesPerTick.getD 0) count entries count' := by
  rw [← trailing_iff, ← verifyTickHashCount_eq_iff]
  unfold verifyTicks
  dsimp only
  generalize tickHeight + tickCount entries = next
  generalize (entries.getLast?.map fun e => !e.isTick).getD false = trailing
  generalize verifyTickHashCount entries count (bankHashesPerTick.getD 0) = result
  obtain ⟨c, ok⟩ := result
  split_ifs with h₁ h₂ h₃ h₄
  · simp
    omega
  · simp only [false_iff, not_and]
    intro _ hfull
    exact absurd (hfull.1 h₂.2) h₂.1.ne
  · simp only [false_iff, not_and]
    intro _ _ htrailing
    rw [htrailing h₃.1] at h₃
    exact absurd h₃.2 (by simp)
  · simp only [false_iff, not_and]
    intro _ hfull
    rw [hfull.2 h₄.1] at h₄
    exact absurd h₄.2 (by simp)
  · have hfull : slotFull = true ↔ next = maxTickHeight := by
      constructor
      · intro hfull
        by_contra hne
        exact h₂ ⟨by omega, hfull⟩
      · intro heq
        by_contra hne
        exact h₄ ⟨heq, by simpa using hne⟩
    have htrailing : next = maxTickHeight → trailing = false := by
      intro heq
      by_contra hne
      exact h₃ ⟨heq, by simpa using hne⟩
    have hle : next ≤ maxTickHeight := by omega
    simp only [hle, hfull, true_and]
    cases ok
    · simp
    · simpa using fun _ => htrailing

section Cuts

/-- After these entries ticks are still missing, and the hash count is below that of a tick. -/
def Settled (maxTickHeight : Nat) (bankHashesPerTick : Option Nat) (s : Nat × Nat)
    (entries : List (Entry ν)) : Prop :=
  s.1 + tickCount entries < maxTickHeight ∧
    ∃ count, CountsOk (bankHashesPerTick.getD 0) s.2 entries count

/-- The calls of a slot all pass the tick verification. -/
def Accepts (maxTickHeight : Nat) (bankHashesPerTick : Option Nat) (s : Nat × Nat)
    (calls : List (List (Entry ν))) : Prop :=
  ∃ s', verifyTicksOfCalls maxTickHeight bankHashesPerTick s calls = .ok s'

lemma accepts_singleton :
    Accepts maxTickHeight bankHashesPerTick s [entries] ↔
      s.1 + tickCount entries = maxTickHeight ∧
      (∀ e, entries.getLast? = some e → e.isTick = true) ∧
      ∃ count, CountsOk (bankHashesPerTick.getD 0) s.2 entries count := by
  have hcall : Accepts maxTickHeight bankHashesPerTick s [entries] ↔
      ∃ count, verifyTicks s.1 maxTickHeight bankHashesPerTick entries true s.2 = .ok count := by
    constructor
    · rintro ⟨s', h⟩
      obtain ⟨count, hcount, -⟩ := bind_eq_ok.1 h
      exact ⟨count, hcount⟩
    · rintro ⟨count, hcount⟩
      exact ⟨_, bind_eq_ok.2 ⟨count, hcount, rfl⟩⟩
  rw [hcall]
  simp only [verifyTicks_eq_ok_iff, true_iff]
  constructor
  · rintro ⟨count, -, hfull, hlast, hcounts⟩
    exact ⟨hfull, hlast hfull, count, hcounts⟩
  · rintro ⟨hfull, hlast, count, hcounts⟩
    exact ⟨count, hfull.le, hfull, fun _ => hlast, hcounts⟩

lemma accepts_cons (hcalls : calls ≠ []) :
    Accepts maxTickHeight bankHashesPerTick s (entries :: calls) ↔
      s.1 + tickCount entries < maxTickHeight ∧
      ∃ count, CountsOk (bankHashesPerTick.getD 0) s.2 entries count ∧
        Accepts maxTickHeight bankHashesPerTick (s.1 + tickCount entries, count) calls := by
  have hisEmpty : calls.isEmpty = false := by simpa using hcalls
  constructor
  · rintro ⟨s', h⟩
    obtain ⟨count, hcount, hrest⟩ := bind_eq_ok.1 h
    rw [hisEmpty, verifyTicks_eq_ok_iff] at hcount
    obtain ⟨hle, hfull, -, hcounts⟩ := hcount
    refine ⟨lt_of_le_of_ne hle (fun heq => ?_), count, hcounts, s', hrest⟩
    exact absurd (hfull.2 heq) (by simp)
  · rintro ⟨hlt, count, hcounts, s', hrest⟩
    refine ⟨s', bind_eq_ok.2 ⟨count, ?_, hrest⟩⟩
    rw [hisEmpty, verifyTicks_eq_ok_iff]
    exact ⟨hlt.le, by simp [hlt.ne], fun heq => absurd heq hlt.ne, hcounts⟩

lemma countsOk_append {c c₁ c₂ : Nat} (h : carried hashesPerTick c xs = some c₁) :
    CountsOk hashesPerTick c (xs ++ ys) c₂ ↔ CountsOk hashesPerTick c₁ ys c₂ := by
  unfold CountsOk
  rw [carried_append, h, Option.bind_some]

lemma accepts_join (hlt : s.1 + tickCount xs < maxTickHeight)
    (hcounts : CountsOk (bankHashesPerTick.getD 0) s.2 xs count) :
    Accepts maxTickHeight bankHashesPerTick (s.1 + tickCount xs, count) [ys] ↔
      Accepts maxTickHeight bankHashesPerTick s [xs ++ ys] := by
  rw [accepts_singleton, accepts_singleton]
  simp only [countsOk_append hcounts.1, tickCount_append, ← Nat.add_assoc]
  refine and_congr_right fun hfull => ?_
  have hys : ys ≠ [] := by
    rintro rfl
    simp only [tickCount, filter_nil, length_nil, Nat.add_zero] at hfull
    exact absurd hfull hlt.ne
  rw [getLast?_append_of_ne_nil _ hys]

/-- All calls pass exactly if one call for all entries would pass and each cut between two
calls is harmless. -/
lemma accepts_iff (hcalls : calls ≠ []) :
    Accepts maxTickHeight bankHashesPerTick s calls ↔
      Accepts maxTickHeight bankHashesPerTick s [calls.flatten] ∧
      ∀ before after, calls = before ++ after → before ≠ [] → after ≠ [] →
        Settled maxTickHeight bankHashesPerTick s before.flatten := by
  induction calls generalizing s with
  | nil => exact absurd rfl hcalls
  | cons entries calls ih =>
    by_cases hnil : calls = []
    · subst hnil
      simp only [flatten_cons, flatten_nil, append_nil, iff_self_and]
      intro _ before after hsplit hbefore hafter
      obtain _ | ⟨b, before⟩ := before
      · exact absurd rfl hbefore
      · obtain ⟨-, hrest⟩ := cons_eq_cons.1 hsplit
        exact absurd (append_eq_nil_iff.1 hrest.symm).2 hafter
    · rw [accepts_cons hnil, flatten_cons]
      constructor
      · rintro ⟨hlt, count, hcounts, haccepts⟩
        obtain ⟨hwhole, hcuts⟩ := (ih hnil).1 haccepts
        refine ⟨(accepts_join hlt hcounts).1 hwhole, fun before after hsplit hbefore hafter => ?_⟩
        obtain _ | ⟨b, before⟩ := before
        · exact absurd rfl hbefore
        · obtain ⟨rfl, hrest⟩ := cons_eq_cons.1 hsplit
          by_cases hmore : before = []
          · subst hmore
            simpa [Settled] using ⟨hlt, count, hcounts⟩
          · obtain ⟨hlt', count', hcounts'⟩ := hcuts before after hrest hmore hafter
            rw [flatten_cons]
            refine ⟨?_, count', (countsOk_append hcounts.1).2 hcounts'⟩
            rw [tickCount_append]
            omega
      · rintro ⟨hwhole, hcuts⟩
        obtain ⟨hlt, count, hcounts⟩ := hcuts [entries] calls rfl (by simp) hnil
        simp only [flatten_cons, flatten_nil, append_nil] at hlt hcounts
        refine ⟨hlt, count, hcounts, (ih hnil).2 ⟨(accepts_join hlt hcounts).2 hwhole, ?_⟩⟩
        rintro before after rfl hbefore hafter
        obtain ⟨hlt', count', hcounts'⟩ := hcuts (entries :: before) after rfl (by simp) hafter
        rw [flatten_cons, tickCount_append] at hlt'
        rw [flatten_cons, countsOk_append hcounts.1] at hcounts'
        exact ⟨by omega, count', hcounts'⟩

/-- The data sets of a slot, in groups that became complete between two calls. The last call
gets the last data set; the others may get none. -/
structure Grouping (sets : List (List (Entry ν))) (groups : List (List (List (Entry ν)))) : Prop where
  flatten_eq : groups.flatten = sets
  last_mem : ∃ before last, groups = before ++ [last] ∧ last ≠ []

/-- The calls that a grouping makes. -/
def callsOf (groups : List (List (List (Entry ν)))) : List (List (Entry ν)) := groups.map List.flatten

lemma flatten_callsOf (groups : List (List (List (Entry ν)))) :
    (callsOf groups).flatten = groups.flatten.flatten :=
  flatten_flatten.symm

lemma Grouping.cut {sets : List (List (Entry ν))} {groups before after : List (List (List (Entry ν)))}
    (h : Grouping sets groups) (hsplit : groups = before ++ after) (hafter : after ≠ []) :
    before.flatten.length < sets.length ∧ before.flatten = sets.take before.flatten.length := by
  obtain ⟨init, last, hlast, hne⟩ := h.last_mem
  have hsets : sets = before.flatten ++ after.flatten := by
    rw [← h.flatten_eq, hsplit, flatten_append]
  have hmem : last ∈ after := by
    have hget : after.getLast? = some last := by
      have hgroups := congrArg List.getLast? (hsplit.symm.trans hlast)
      rwa [getLast?_append_of_ne_nil _ hafter, getLast?_concat] at hgroups
    exact mem_of_getLast? hget
  have hpos : 0 < after.flatten.length := by
    obtain ⟨e, he⟩ := exists_mem_of_ne_nil last hne
    exact length_pos_of_mem (mem_flatten.2 ⟨last, hmem, he⟩)
  rw [hsets]
  exact ⟨by rw [length_append]; omega, by simp⟩

/-- A tick without hashes of its own, in a data set after the one that has all its hashes. -/
def zeroHashTick : List (List (Entry Unit)) := [[⟨2, 1, [()]⟩], [⟨0, 1, []⟩]]

end Cuts

end Nuah.Proofs
