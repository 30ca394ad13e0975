import Nuah.ProgramCache

/-!
# What pruning does to a search

A search stops at the first version that is visible to the batch and effective for it. Pruning
leaves the visibility of the versions that it keeps as it was, so a search that stops at a kept
version ends as before.
-/

namespace Nuah

open OrderedMaps List Option

variable {χ : Type}

variable {e : LoadedProgram χ} {slot latestRootSlot newRootSlot : Slot} {cache : ProgramCache χ}
  {key : Pubkey} {searchFor : List SearchItem} {batch : TxBatch χ}
  {first : Option (Option Environment)} {l : List (LoadedProgram χ)} {g : ForkGraph}

/-! ## Forks -/

namespace ForkGraph

variable {a b c : Slot}

lemma isOnFork_iff : g.IsOnFork a b ↔ a = b ∨ g.relationship a b = .ancestor := by
  rw [IsOnFork, g.equal_iff]

lemma IsOnFork.le (h : g.IsOnFork a b) : a ≤ b := by
  rcases isOnFork_iff.1 h with rfl | h
  · exact le_rfl
  · exact (g.lt_of_ancestor h).le

lemma IsOnFork.trans (hab : g.IsOnFork a b) (hbc : g.IsOnFork b c) : g.IsOnFork a c := by
  rcases isOnFork_iff.1 hab with rfl | hab
  · exact hbc
  · rcases isOnFork_iff.1 hbc with rfl | hbc
    · exact .inr hab
    · exact .inr (g.ancestor_trans hab hbc)

lemma IsOnFork.chain (ha : g.IsOnFork a c) (hb : g.IsOnFork b c) (hle : a ≤ b) :
    g.IsOnFork a b := by
  rcases hle.eq_or_lt with rfl | hlt
  · exact isOnFork_iff.2 (.inl rfl)
  · rcases isOnFork_iff.1 hb with rfl | hb
    · exact ha
    · rcases isOnFork_iff.1 ha with rfl | ha
      · exact absurd (g.lt_of_ancestor hb) (not_lt.2 hlt.le)
      · exact .inr (g.ancestor_chain ha hb hlt)

lemma isOnFork_of_descendant (h : g.relationship a b = .equal ∨ g.relationship a b = .descendant) :
    g.IsOnFork b a := by
  rcases h with h | h
  · exact isOnFork_iff.2 (.inl ((g.equal_iff a b).1 h).symm)
  · exact .inr ((g.descendant_iff a b).1 h)

lemma IsOnFork.descendant (h : g.IsOnFork b a) :
    g.relationship a b = .equal ∨ g.relationship a b = .descendant := by
  rcases isOnFork_iff.1 h with rfl | h
  · exact .inl ((g.equal_iff b b).2 rfl)
  · exact .inr ((g.descendant_iff a b).2 h)

end ForkGraph

/-! ## Where a search stops -/

namespace LoadedProgram

def Serves (e : LoadedProgram χ) (slot : Slot) (environments : ProgramRuntimeEnvironments) : Prop :=
  e.effectiveSlot ≤ slot ∧ e.matchesEnvironment environments ∨
    e.isImplicitDelayVisibilityTombstone slot

instance (e : LoadedProgram χ) (slot : Slot) (environments : ProgramRuntimeEnvironments) :
    Decidable (e.Serves slot environments) := by
  unfold Serves
  infer_instance

lemma effectiveSlot_of_delay (h : e.isImplicitDelayVisibilityTombstone slot) :
    e.effectiveSlot = e.deploymentSlot + 1 := by
  rw [isImplicitDelayVisibilityTombstone, Bool.and_eq_true, Bool.and_eq_true, Bool.and_eq_true,
    decide_eq_true_eq, decide_eq_true_eq, decide_eq_true_eq] at h
  have hoffset : e.effectiveSlot - e.deploymentSlot = 1 := h.1.1.2
  exact (Nat.sub_eq_iff_eq_add' (h.1.2.trans h.2.le)).1 hoffset

lemma not_before_self (e : LoadedProgram χ) : ¬ e.Before e := by
  simp [Before]

end LoadedProgram

namespace ProgramCache

def StopsAt (g : ForkGraph) (latestRootSlot slot : Slot) (environments : ProgramRuntimeEnvironments)
    (e : LoadedProgram χ) : Prop :=
  Visible g latestRootSlot slot e ∧ e.Serves slot environments

instance (g : ForkGraph) (latestRootSlot slot : Slot) (environments : ProgramRuntimeEnvironments)
    (e : LoadedProgram χ) : Decidable (StopsAt g latestRootSlot slot environments e) := by
  unfold StopsAt
  infer_instance

def answer (slot : Slot) (environments : ProgramRuntimeEnvironments)
    (criteria : LoadedProgramMatchCriteria) (e : LoadedProgram χ) : Option (LoadedProgram χ) :=
  if e.effectiveSlot ≤ slot ∧ e.matchesEnvironment environments then
    if matchesCriteria e criteria ∧ !e.program.isUnloaded then some e else none
  else some (.newTombstone e.deploymentSlot .delayVisibility)

variable {environments : ProgramRuntimeEnvironments} {criteria : LoadedProgramMatchCriteria}

lemma searchVersions_eq (versions : List (LoadedProgram χ)) :
    searchVersions g latestRootSlot slot environments criteria versions =
      (versions.find? fun e => decide (StopsAt g latestRootSlot slot environments e)).bind
        (answer slot environments criteria) := by
  induction versions with
  | nil => rfl
  | cons e rest ih =>
    rw [searchVersions, find?_cons, ih]
    by_cases hvisible : Visible g latestRootSlot slot e
    · by_cases heffective : e.effectiveSlot ≤ slot ∧ e.matchesEnvironment environments
      · have hstops : StopsAt g latestRootSlot slot environments e := ⟨hvisible, .inl heffective⟩
        rw [if_pos hvisible, if_pos heffective, decide_eq_true hstops]
        dsimp only
        rw [bind_some, answer, if_pos heffective]
      · rw [if_pos hvisible, if_neg heffective]
        by_cases hdelay : e.isImplicitDelayVisibilityTombstone slot
        · have hstops : StopsAt g latestRootSlot slot environments e := ⟨hvisible, .inr hdelay⟩
          rw [if_pos hdelay, decide_eq_true hstops]
          dsimp only
          rw [bind_some, answer, if_neg heffective]
        · have hpasses : ¬ StopsAt g latestRootSlot slot environments e :=
            fun hstops => hstops.2.elim heffective hdelay
          rw [if_neg hdelay, decide_eq_false hpasses]
    · have hpasses : ¬ StopsAt g latestRootSlot slot environments e := fun hstops => hvisible hstops.1
      rw [if_neg hvisible, decide_eq_false hpasses]

lemma answer_eq_some {a : LoadedProgram χ} (h : answer slot environments criteria a = some e) :
    a = e ∨ ¬ (a.effectiveSlot ≤ slot ∧ a.matchesEnvironment environments) ∧
      .newTombstone a.deploymentSlot .delayVisibility = e := by
  unfold answer at h
  split_ifs at h with heffective
  · exact .inl (Option.some.inj h)
  · exact .inr ⟨heffective, Option.some.inj h⟩

lemma not_before_of_answer_eq {a b : LoadedProgram χ} (ha : a.Serves slot environments)
    (hb : b.Serves slot environments) (hanswer_a : answer slot environments criteria a = some e)
    (hanswer_b : answer slot environments criteria b = some e)
    (hprogram_a : a.program ≠ .delayVisibility) (hprogram_b : b.program ≠ .delayVisibility) :
    ¬ a.Before b := by
  rcases answer_eq_some hanswer_a with rfl | ⟨hnot_a, htombstone_a⟩
  · rcases answer_eq_some hanswer_b with rfl | ⟨-, rfl⟩
    · exact LoadedProgram.not_before_self _
    · exact absurd rfl hprogram_a
  · rcases answer_eq_some hanswer_b with rfl | ⟨hnot_b, htombstone_b⟩
    · exact absurd (htombstone_a ▸ rfl) hprogram_b
    · -- both are one slot from being effective, so they agree in both slots
      have hdeployment := congrArg LoadedProgram.deploymentSlot (htombstone_a.trans htombstone_b.symm)
      change a.deploymentSlot = b.deploymentSlot at hdeployment
      have hdelay_a := LoadedProgram.effectiveSlot_of_delay (ha.resolve_left hnot_a)
      have hdelay_b := LoadedProgram.effectiveSlot_of_delay (hb.resolve_left hnot_b)
      rw [LoadedProgram.Before, hdelay_a, hdelay_b, hdeployment]
      simp

/-! ## The versions after an operation -/

def versions (cache : ProgramCache χ) (key : Pubkey) : List (LoadedProgram χ) :=
  (cache.secondLevel key).slotVersions.toList

lemma versions_sorted (cache : ProgramCache χ) (key : Pubkey) :
    (cache.versions key).Pairwise LoadedProgram.Before :=
  (cache.secondLevel key).slotVersions.sorted

lemma find_eq (cache : ProgramCache χ) (key : Pubkey) :
    cache.find g key slot environments criteria =
      ((cache.versions key).reverse.find? fun e =>
        decide (StopsAt g cache.latestRootSlot slot environments e)).bind
          (answer slot environments criteria) :=
  searchVersions_eq _

lemma secondLevel_setLevel (cache : ProgramCache χ) (key other : Pubkey) (level : SecondLevel χ) :
    (cache.setLevel key level).secondLevel other =
      if other = key then level else cache.secondLevel other := by
  rw [secondLevel, setLevel, getElem?_insert_eq]
  split_ifs <;> rfl

lemma versions_assignProgram (cache : ProgramCache χ) (key other : Pubkey) (entry : LoadedProgram χ) :
    (cache.assignProgram key entry).1.versions other =
      if other = key then (assignVersion entry (cache.versions key)).1 else cache.versions other := by
  rw [versions, assignProgram, secondLevel_setLevel]
  split_ifs <;> rfl

lemma versions_prune (cache : ProgramCache χ) (newRootSlot : Slot) (newRootEpoch : Epoch)
    (key : Pubkey) :
    ((cache.prune g newRootSlot newRootEpoch).versions key).reverse =
      keptVersions g cache.latestRootSlot newRootSlot (cache.environmentsAtRoot newRootEpoch)
        (cache.versions key) := by
  rw [versions, versions, secondLevel, secondLevel, prune]
  dsimp only
  rw [Std.TreeMap.getElem?_filter', Std.TreeMap.getElem?_map]
  cases cache.entries[key]? with
  | none => rfl
  | some level =>
    rw [map_some, filter_some]
    split_ifs with hkept
    · rw [getD_some, getD_some, SlotVersions.prune, List.reverse_reverse]
    · rw [Bool.or_eq_true, not_or, Bool.not_eq_true, Bool.not_eq_false', List.isEmpty_iff] at hkept
      rw [SlotVersions.prune, List.reverse_eq_nil_iff] at hkept
      exact hkept.1.symm

/-! ## Extraction -/

lemma find_congr {cache' : ProgramCache χ} (hroot : cache'.latestRootSlot = cache.latestRootSlot)
    (hversions : cache'.versions key = cache.versions key) :
    cache'.find g key slot environments criteria = cache.find g key slot environments criteria := by
  rw [find_eq, find_eq, hroot, hversions]

lemma versions_selectTask (cache : ProgramCache χ) (item : SearchItem) (slot : Slot)
    (task : Option (Pubkey × Nat)) (key : Pubkey) :
    (cache.selectTask item slot task).1.versions key = cache.versions key := by
  have hset : ∀ level : SecondLevel χ, level.slotVersions = (cache.secondLevel item.key).slotVersions →
      (cache.setLevel item.key level).versions key = cache.versions key := by
    intro level hlevel
    rw [versions, secondLevel_setLevel]
    split_ifs with h
    · rw [h, hlevel]
      rfl
    · rfl
  rw [selectTask]
  split_ifs
  · exact hset _ rfl
  · exact hset _ rfl
  · rfl

lemma latestRootSlot_selectTask (cache : ProgramCache χ) (item : SearchItem) (slot : Slot)
    (task : Option (Pubkey × Nat)) :
    (cache.selectTask item slot task).1.latestRootSlot = cache.latestRootSlot := by
  rw [selectTask]
  split_ifs <;> rfl

def lookup (g : ForkGraph) (cache : ProgramCache χ) (batch : TxBatch χ) (item : SearchItem) :
    Option (LoadedProgram χ) :=
  cache.find g item.key batch.slot batch.environments item.criteria

lemma lookup_selectTask (cache : ProgramCache χ) (item : SearchItem) (slot : Slot)
    (task : Option (Pubkey × Nat)) (batch : TxBatch χ) :
    lookup g (cache.selectTask item slot task).1 batch = lookup g cache batch := by
  funext other
  exact find_congr (latestRootSlot_selectTask cache item slot task)
    (versions_selectTask cache item slot task other.key)

/-- What choosing a task leaves alone, a search leaves alone. -/
lemma extract_frame {γ : Type} {f : ProgramCache χ → γ}
    (hf : ∀ cache item slot task, f (selectTask cache item slot task).1 = f cache)
    (searchFor : List SearchItem) (cache : ProgramCache χ) (batch : TxBatch χ)
    (task : Option (Pubkey × Nat)) : f (extract g searchFor cache batch task).cache = f cache := by
  induction searchFor generalizing cache batch task with
  | nil => rfl
  | cons item searchFor ih =>
    rw [extract]
    split
    · exact ih _ _ _
    · exact (ih _ _ _).trans (hf _ _ _ _)

lemma versions_extract (searchFor : List SearchItem) (cache : ProgramCache χ) (batch : TxBatch χ)
    (task : Option (Pubkey × Nat)) (key : Pubkey) :
    (extract g searchFor cache batch task).cache.versions key = cache.versions key :=
  extract_frame (f := (versions · key)) (fun _ _ _ _ => versions_selectTask _ _ _ _ _) _ _ _ _

lemma latestRootSlot_extract (searchFor : List SearchItem) (cache : ProgramCache χ)
    (batch : TxBatch χ) (task : Option (Pubkey × Nat)) :
    (extract g searchFor cache batch task).cache.latestRootSlot = cache.latestRootSlot :=
  extract_frame (fun _ _ _ _ => latestRootSlot_selectTask _ _ _ _) _ _ _ _

lemma missing_extract (searchFor : List SearchItem) (cache : ProgramCache χ) (batch : TxBatch χ)
    (task : Option (Pubkey × Nat)) :
    (extract g searchFor cache batch task).missing =
      searchFor.filter fun item => (lookup g cache batch item).isNone := by
  induction searchFor generalizing cache batch task with
  | nil => rfl
  | cons item searchFor ih =>
    rw [extract, filter_cons]
    split
    next e hfound =>
      have hlookup : lookup g cache batch item = some e := hfound
      rw [ih, hlookup]
      rfl
    next hmissing =>
      have hlookup : lookup g cache batch item = none := hmissing
      dsimp only
      rw [ih, lookup_selectTask, hlookup]
      rfl

lemma mem_missing_iff {task : Option (Pubkey × Nat)} {item : SearchItem} (hitem : item ∈ searchFor) :
    item ∈ (extract g searchFor cache batch task).missing ↔ lookup g cache batch item = none := by
  rw [missing_extract, mem_filter, isNone_iff_eq_none]
  exact and_iff_right hitem

lemma entries_extract_of_notMem (hkey : key ∉ searchFor.map SearchItem.key)
    (cache : ProgramCache χ) (batch : TxBatch χ) (task : Option (Pubkey × Nat)) :
    (extract g searchFor cache batch task).batch.entries[key]? = batch.entries[key]? := by
  induction searchFor generalizing cache batch task with
  | nil => rfl
  | cons item searchFor ih =>
    rw [map_cons, mem_cons, not_or] at hkey
    rw [extract]
    split
    · rw [ih hkey.2, getElem?_insert_eq, if_neg hkey.1]
    · exact ih hkey.2 _ _ _

lemma entries_extract (hdistinct : (searchFor.map SearchItem.key).Nodup) {item : SearchItem}
    (hitem : item ∈ searchFor) (cache : ProgramCache χ) (batch : TxBatch χ)
    (task : Option (Pubkey × Nat)) :
    (extract g searchFor cache batch task).batch.entries[item.key]? =
      (lookup g cache batch item).or batch.entries[item.key]? := by
  induction searchFor generalizing cache batch task with
  | nil => exact absurd hitem not_mem_nil
  | cons first searchFor ih =>
    rw [map_cons, nodup_cons] at hdistinct
    rw [extract]
    rcases mem_cons.1 hitem with rfl | hitem
    · split
      next e hfound =>
        have hlookup : lookup g cache batch item = some e := hfound
        rw [entries_extract_of_notMem hdistinct.1, getElem?_insert_eq, if_pos rfl, hlookup]
        rfl
      next hmissing =>
        have hlookup : lookup g cache batch item = none := hmissing
        dsimp only
        rw [entries_extract_of_notMem hdistinct.1, hlookup]
        rfl
    · have hne : item.key ≠ first.key := by
        intro heq
        exact hdistinct.1 (heq ▸ mem_map_of_mem hitem)
      split
      next e _ =>
        rw [ih hdistinct.2 hitem, getElem?_insert_eq, if_neg hne]
        rfl
      next =>
        dsimp only
        rw [ih hdistinct.2 hitem, lookup_selectTask]

/-! ## What is kept -/

lemma rooted_or_after_of_kept {versions : List (LoadedProgram χ)}
    (he : e ∈ keepReachable g latestRootSlot newRootSlot first versions) :
    g.IsOnFork newRootSlot e.deploymentSlot ∨
      e.deploymentSlot < newRootSlot ∧
        (g.IsOnFork e.deploymentSlot newRootSlot ∨ e.deploymentSlot ≤ latestRootSlot) := by
  induction versions generalizing first with
  | nil => exact absurd he not_mem_nil
  | cons a rest ih =>
    rw [keepReachable.eq_def] at he
    dsimp only at he
    split_ifs at he with hafter hrelation hrooted
    · rcases mem_cons.1 he with rfl | he
      · exact .inl (ForkGraph.isOnFork_of_descendant hrelation)
      · exact ih he
    · exact ih he
    · have hcase : e = a → e.deploymentSlot < newRootSlot ∧
          (g.IsOnFork e.deploymentSlot newRootSlot ∨ e.deploymentSlot ≤ latestRootSlot) := by
        rintro rfl
        exact ⟨not_le.1 hafter, hrooted.imp_left .inr⟩
      have hcons : ∀ {first'}, e ∈ a :: keepReachable g latestRootSlot newRootSlot first' rest →
          _ := fun {first'} he => (mem_cons.1 he).elim (fun h => .inr (hcase h)) ih
      split at he
      · exact hcons he
      · split at he
        · split_ifs at he
          · exact hcons he
          · exact ih he
        · exact ih he
    · exact ih he

lemma mem_keptVersions {outdated : Option ProgramRuntimeEnvironments}
    (he : e ∈ keptVersions g latestRootSlot newRootSlot outdated l) :
    e ∈ keepReachable g latestRootSlot newRootSlot none l.reverse :=
  (mem_filter.1 he).1

lemma visible_iff_of_kept (he : e ∈ keepReachable g latestRootSlot newRootSlot first l)
    (hroot : g.IsOnFork latestRootSlot newRootSlot) (hslot : g.IsOnFork newRootSlot slot) :
    Visible g newRootSlot slot e ↔ Visible g latestRootSlot slot e := by
  constructor
  · rintro (hle | hfork)
    · rcases rooted_or_after_of_kept he with hafter | ⟨-, hrooted | hrooted⟩
      · have heq : e.deploymentSlot = newRootSlot := le_antisymm hle hafter.le
        exact .inr (heq ▸ hslot)
      · exact .inr (hrooted.trans hslot)
      · exact .inl hrooted
    · exact .inr hfork
  · rintro (hle | hfork)
    · exact .inl (hle.trans hroot.le)
    · exact .inr hfork

def stop (g : ForkGraph) (cache : ProgramCache χ) (batch : TxBatch χ) (key : Pubkey) :
    Option (LoadedProgram χ) :=
  (cache.versions key).reverse.find? fun e =>
    decide (StopsAt g cache.latestRootSlot batch.slot batch.environments e)

lemma stopsAt_of_find?
    (h : l.find? (fun e => decide (StopsAt g latestRootSlot slot environments e)) = some e) :
    StopsAt g latestRootSlot slot environments e := by
  have hdecide := find?_some h
  exact of_decide_eq_true hdecide

lemma lookup_eq (cache : ProgramCache χ) (batch : TxBatch χ) (item : SearchItem) :
    lookup g cache batch item =
      (stop g cache batch item.key).bind (answer batch.slot batch.environments item.criteria) :=
  find_eq cache item.key

lemma stop_prune (newRootEpoch : Epoch) (key : Pubkey)
    (hroot : g.IsOnFork cache.latestRootSlot newRootSlot)
    (hslot : g.IsOnFork newRootSlot batch.slot) :
    stop g (cache.prune g newRootSlot newRootEpoch) batch key =
      ((cache.prune g newRootSlot newRootEpoch).versions key).reverse.find? fun e =>
        decide (StopsAt g cache.latestRootSlot batch.slot batch.environments e) := by
  apply find?_congr
  intro e he
  rw [versions_prune] at he
  have hvisible := visible_iff_of_kept (mem_keptVersions he) hroot hslot
  exact decide_eq_decide.2 (and_congr_left' hvisible)

lemma find?_eq_some_of_sublist {α : Type} {p : α → Bool} {l l' : List α} {a : α}
    (hsublist : l'.Sublist l) (hnodup : l.Nodup) (hfind : l.find? p = some a) (ha : a ∈ l') :
    l'.find? p = some a := by
  obtain ⟨hp, front, back, rfl, hfront⟩ := find?_eq_some_iff_append.1 hfind
  obtain ⟨front', rest, rfl, hfront', hrest⟩ := sublist_append_iff.1 hsublist
  obtain ⟨-, hback, hapart⟩ := nodup_append'.1 hnodup
  have hmem : a ∈ rest := (mem_append.1 ha).resolve_left fun h =>
    hapart (hfront'.subset h) mem_cons_self
  rcases sublist_cons_iff.1 hrest with hrest | ⟨back', rfl, -⟩
  · exact absurd (hrest.subset hmem) (nodup_cons.1 hback).1
  · exact find?_eq_some_iff_append.2
      ⟨hp, front', back', rfl, fun b hb => hfront b (hfront'.subset hb)⟩

lemma versions_prune_sublist (cache : ProgramCache χ) (newRootSlot : Slot) (newRootEpoch : Epoch)
    (key : Pubkey) :
    ((cache.prune g newRootSlot newRootEpoch).versions key).reverse.Sublist
      (cache.versions key).reverse := by
  rw [versions_prune]
  exact keptVersions_sublist _ _ _ _ _

lemma reverse_versions_nodup (cache : ProgramCache χ) (key : Pubkey) :
    (cache.versions key).reverse.Nodup := by
  refine nodup_reverse.2 ((versions_sorted cache key).imp fun {a b} hbefore heq => ?_)
  exact a.not_before_self (heq ▸ hbefore)

lemma eq_or_before_of_stop {z : LoadedProgram χ} (hstop : stop g cache batch key = some e)
    (hz : z ∈ cache.versions key)
    (hstops : StopsAt g cache.latestRootSlot batch.slot batch.environments z) :
    z = e ∨ z.Before e := by
  obtain ⟨-, before, after, hsplit, hpassed⟩ := find?_eq_some_iff_append.1 hstop
  have hmem := mem_reverse.2 hz
  have hsorted := pairwise_reverse.2 (versions_sorted cache key)
  rw [hsplit] at hmem hsorted
  rcases mem_append.1 hmem with hbefore | hrest
  · have hpass := hpassed z hbefore
    rw [decide_eq_true hstops] at hpass
    exact absurd hpass Bool.false_ne_true
  · rcases mem_cons.1 hrest with heq | hafter
    · exact .inl heq
    · exact .inr ((pairwise_cons.1 (pairwise_append.1 hsorted).2.1).1 z hafter)

section prune

variable (newRootEpoch : Epoch) (item : SearchItem)
  (hroot : g.IsOnFork cache.latestRootSlot newRootSlot) (hslot : g.IsOnFork newRootSlot batch.slot)

include hroot hslot

lemma lookup_prune_of_kept (hstop : stop g cache batch item.key = some e)
    (he : e ∈ (cache.prune g newRootSlot newRootEpoch).versions item.key) :
    lookup g (cache.prune g newRootSlot newRootEpoch) batch item = lookup g cache batch item := by
  have hstop' : stop g (cache.prune g newRootSlot newRootEpoch) batch item.key = some e := by
    rw [stop_prune newRootEpoch item.key hroot hslot]
    exact find?_eq_some_of_sublist (versions_prune_sublist cache newRootSlot newRootEpoch item.key)
      (reverse_versions_nodup cache item.key) hstop (mem_reverse.2 he)
  rw [lookup_eq, lookup_eq, hstop, hstop']

lemma lookup_prune_of_stop_none (hstop : stop g cache batch item.key = none) :
    lookup g (cache.prune g newRootSlot newRootEpoch) batch item = none := by
  have hstop' : stop g (cache.prune g newRootSlot newRootEpoch) batch item.key = none := by
    rw [stop_prune newRootEpoch item.key hroot hslot, find?_eq_none]
    intro e he
    exact find?_eq_none.1 hstop e
      ((versions_prune_sublist cache newRootSlot newRootEpoch item.key).subset he)
  rw [lookup_eq, hstop']
  rfl

lemma lookup_prune_ne_of_removed {found : LoadedProgram χ}
    (hdelay : ∀ a ∈ cache.versions item.key, a.program ≠ .delayVisibility)
    (hstop : stop g cache batch item.key = some e)
    (he : e ∉ (cache.prune g newRootSlot newRootEpoch).versions item.key)
    (hfound : lookup g cache batch item = some found) :
    lookup g (cache.prune g newRootSlot newRootEpoch) batch item ≠ some found := by
  intro hfound'
  rw [lookup_eq, hstop, bind_some] at hfound
  rw [lookup_eq, stop_prune newRootEpoch item.key hroot hslot, bind_eq_some_iff] at hfound'
  obtain ⟨e', hstop', hanswer'⟩ := hfound'
  have hmem' := mem_of_find?_eq_some hstop'
  have hne : e' ≠ e := fun heq => he (heq ▸ mem_reverse.1 hmem')
  have hstops := stopsAt_of_find? hstop
  have hstops' := stopsAt_of_find? hstop'
  have hmem := (versions_prune_sublist cache newRootSlot newRootEpoch item.key).subset hmem'
  -- the other entry stands after the one where the search stopped, so it is the older one
  have holder := (eq_or_before_of_stop hstop (mem_reverse.1 hmem) hstops').resolve_left hne
  exact not_before_of_answer_eq hstops'.2 hstops.2 hanswer' hfound
    (hdelay e' (mem_reverse.1 hmem))
    (hdelay e (mem_reverse.1 (mem_of_find?_eq_some hstop))) holder

end prune

/-! ## Caches that are reached -/

lemma program_ne_delayVisibility_apply (op : CacheOp χ)
    (h : ∀ key, ∀ e ∈ cache.versions key, e.program ≠ .delayVisibility) :
    ∀ key, ∀ e ∈ (op.apply g cache).versions key, e.program ≠ .delayVisibility := by
  intro key e he
  cases op with
  | assign target entry hentry =>
    rw [CacheOp.apply, versions_assignProgram] at he
    split_ifs at he with hkey
    · rcases mem_assignVersion he with rfl | he
      · exact hentry
      · exact h target e he
    · exact h key e he
  | prune newRootSlot newRootEpoch =>
    have hsublist := versions_prune_sublist (g := g) cache newRootSlot newRootEpoch key
    exact h key e (mem_reverse.1 (hsublist.subset (mem_reverse.2 he)))
  | extract searchFor batch =>
    rw [CacheOp.apply, versions_extract] at he
    exact h key e he
  | anticipate environments => exact h key e he

lemma program_ne_delayVisibility_run (ops : List (CacheOp χ))
    (h : ∀ key, ∀ e ∈ cache.versions key, e.program ≠ .delayVisibility) :
    ∀ key, ∀ e ∈ (cache.run g ops).versions key, e.program ≠ .delayVisibility := by
  induction ops generalizing cache with
  | nil => exact h
  | cons op ops ih => exact ih (program_ne_delayVisibility_apply op h)

lemma versions_new (rootSlot : Slot) (rootEpoch : Epoch) (environments : ProgramRuntimeEnvironments)
    (key : Pubkey) : (new rootSlot rootEpoch environments : ProgramCache χ).versions key = [] := by
  simp [versions, secondLevel, new, SecondLevel.default, SlotVersions.empty]

/-- Pruning does not show in what the batches of the surviving forks get. -/
def PruneInvisible (g : ForkGraph) (cache pruned : ProgramCache χ) (searchFor : List SearchItem)
    (batch : TxBatch χ) : Prop :=
  let before := extract g searchFor cache batch none
  let after := extract g searchFor pruned batch none
  ∀ item ∈ searchFor,
    (∀ e, before.batch.entries[item.key]? = some e →
      after.batch.entries[item.key]? = some e ∨ item ∈ after.missing) ∧
    (item ∈ before.missing → item ∈ after.missing)

end ProgramCache

/-! ## A closed program comes back -/

/-- All slots are on one fork. -/
def linearChain : ForkGraph where
  relationship a b := if a = b then .equal else if a < b then .ancestor else .descendant
  equal_iff a b := by
    split_ifs <;> simp_all
  lt_of_ancestor {a b} h := by
    split_ifs at h
    assumption
  descendant_iff := fun (a b : Nat) => by
    rcases Nat.lt_trichotomy a b with hlt | rfl | hlt
    · simp [hlt, hlt.ne, hlt.ne', hlt.not_gt]
    · simp
    · simp [hlt, hlt.ne, hlt.ne', hlt.not_gt]
  ancestor_trans {a b c} hab hbc := by
    split_ifs at hab hbc with _ hlt _ hlt'
    rw [if_neg (hlt.trans hlt').ne, if_pos (hlt.trans hlt')]
  ancestor_chain {a b c} _ _ hlt := by
    rw [if_neg hlt.ne, if_pos hlt]

/-- A program that was deployed at slot 1, compiled again for the environment of the next epoch,
which starts at slot 100, and closed at slot 10. -/
def closedProgram : List (CacheOp Unit) :=
  [.assign 7 ⟨.legacyV1 1 (), 0, 1, 2⟩ (by decide),
    .anticipate ⟨2, 2⟩,
    .assign 7 ⟨.legacyV1 2 (), 0, 1, 100⟩ (by decide),
    .assign 7 (.newTombstone 10 .closed) (by decide)]

def redeployedProgram : List (CacheOp Unit) :=
  [.assign 7 ⟨.legacyV1 1 (), 0, 1, 2⟩ (by decide),
    .assign 7 ⟨.legacyV1 1 (), 0, 5, 6⟩ (by decide)]

namespace ProgramCache

end ProgramCache

end Nuah
