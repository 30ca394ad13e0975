import Nuah.Proofs.SlotTicks
import Nuah.Proofs.ReplayEntries

/-!
# An accepted slot is a well-formed block

Each call checks its chunk against the tick height, the hash count and the last hash that the
calls before it left. Together they check the block that the chunks make up.
-/

namespace Nuah.Proofs

open ExceptLoops List

variable {maxTickHeight : Nat} {t : Nat × List Hash} {hashes : List Hash} {β : Type}

variable {ν α κ τ : Type}

variable {l : Ledger α κ} {fuel count hashesPerTick count' : Nat} {bank bank' : ReplayBank α κ τ}
  {s s' : ReplayState α κ τ}
  {entries segment : List (Entry ν)} {H : PohHasher ν} {startHash : Hash} {b : β}
  {schedule : Schedule} {chunk : Chunk ν}

def ticksOf (l : Ledger α κ) : Nat × List Hash := (l.tickHeight, l.blockhashes)

def tickStep (maxTickHeight : Nat) (t : Nat × List Hash) (hash : Hash) : Nat × List Hash :=
  if t.1 + 1 = maxTickHeight then (t.1 + 1, hash :: t.2) else (t.1 + 1, t.2)

variable (cfg : ReplayConfig α κ τ)

lemma ticksOf_registerTick (maxTickHeight : Nat) (l : Ledger α κ) (hash : Hash) :
    ticksOf (l.registerTick cfg maxTickHeight hash) = tickStep maxTickHeight (ticksOf l) hash := by
  unfold Ledger.registerTick tickStep ticksOf
  split_ifs <;> rfl

lemma ticksOf_registerTicks (maxTickHeight : Nat) (l : Ledger α κ)
    (hashes : List Hash) : ticksOf (l.registerTicks cfg maxTickHeight hashes) =
      hashes.foldl (tickStep maxTickHeight) (ticksOf l) := by
  rw [Ledger.registerTicks]
  exact (foldl_hom ticksOf fun l hash => (ticksOf_registerTick cfg maxTickHeight l hash).symm).symm

lemma foldl_tickStep_of_lt (hashes : List Hash) (h : t.1 + hashes.length < maxTickHeight) :
    hashes.foldl (tickStep maxTickHeight) t = (t.1 + hashes.length, t.2) := by
  induction hashes generalizing t with
  | nil => rfl
  | cons hash hashes ih =>
    rw [length_cons] at h
    have hstep : tickStep maxTickHeight t hash = (t.1 + 1, t.2) := if_neg (by omega)
    rw [foldl_cons, hstep, ih (by dsimp only; omega), length_cons]
    dsimp only
    rw [Nat.add_assoc, Nat.add_comm 1]

lemma foldl_tickStep_last (hashes : List Hash) (last : Hash)
    (h : t.1 + hashes.length + 1 = maxTickHeight) :
    (hashes ++ [last]).foldl (tickStep maxTickHeight) t = (maxTickHeight, last :: t.2) := by
  rw [foldl_append, foldl_tickStep_of_lt hashes (by omega), foldl_cons, foldl_nil]
  unfold tickStep
  rw [if_pos h, h]

structure KeepsTicks (s s' : ReplayState α κ τ) : Prop where
  ticks : ticksOf s'.bank.ledger = ticksOf s.bank.ledger
  maxTickHeight : s'.bank.maxTickHeight = s.bank.maxTickHeight
  tickHashes : s'.tickHashes = s.tickHashes

/-- The ticks that are registered and those that wait are the ticks so far. -/
structure TicksSoFar (maxTickHeight : Nat) (t : Nat × List Hash) (hashes : List Hash)
    (s : ReplayState α κ τ) : Prop where
  max_eq : s.bank.maxTickHeight = maxTickHeight
  ticks : s.tickHashes.foldl (tickStep maxTickHeight) (ticksOf s.bank.ledger) =
    hashes.foldl (tickStep maxTickHeight) t

lemma TicksSoFar.of_keepsTicks (h : TicksSoFar maxTickHeight t hashes s)
    (hkeeps : KeepsTicks s s') :
    TicksSoFar maxTickHeight t hashes s' :=
  ⟨hkeeps.maxTickHeight.trans h.max_eq, by rw [hkeeps.tickHashes, hkeeps.ticks, h.ticks]⟩

lemma TicksSoFar.registerTicks (h : TicksSoFar maxTickHeight t hashes s) :
    TicksSoFar maxTickHeight t hashes (registerTicks cfg s) := by
  refine ⟨h.max_eq, ?_⟩
  simp only [Nuah.registerTicks, ticksOf_registerTicks, h.max_eq, foldl_nil]
  exact h.ticks

lemma foldl_tickStep_fst (maxTickHeight : Nat) (hashes : List Hash) (t : Nat × List Hash) :
    (hashes.foldl (tickStep maxTickHeight) t).1 = t.1 + hashes.length := by
  induction hashes generalizing t with
  | nil => rfl
  | cons hash hashes ih =>
    have hstep : (tickStep maxTickHeight t hash).1 = t.1 + 1 := by
      unfold tickStep
      split_ifs <;> rfl
    rw [foldl_cons, ih, hstep, length_cons, Nat.add_assoc, Nat.add_comm 1]

section Process

variable [Add κ] {cfg : ReplayConfig α κ τ}

lemma runEvent_ticks (txs : List ReplayTransaction) (s : GroupState α κ) (e : ReplayEvent) :
    ticksOf (runEvent cfg txs s e).ledger = ticksOf s.ledger := by
  unfold runEvent
  cases e <;> dsimp only <;> split <;> rfl

lemma runEvents_ticks (txs : List ReplayTransaction) (events : List ReplayEvent)
    (s : GroupState α κ) :
    ticksOf (events.foldl (runEvent cfg txs) s).ledger = ticksOf s.ledger := by
  induction events generalizing s with
  | nil => rfl
  | cons e events ih => rw [foldl_cons, ih, runEvent_ticks]

lemma executeBatchesInternal_ticks {call : Nat} {l' : Ledger α κ}
    {batches : List (List ReplayTransaction)}
    (h : executeBatchesInternal cfg schedule call l batches = .ok l') :
    ticksOf l' = ticksOf l := by
  unfold executeBatchesInternal at h
  split_ifs at h with hempty
  · have hl := rest_eq_ok h
    cases hl
    exact runEvents_ticks _ _ _

lemma flushGroup_keepsTicks (h : flushGroup cfg schedule s = .ok s') : KeepsTicks s s' := by
  obtain ⟨bank, hbank, h⟩ := bind_eq_ok.1 h
  obtain ⟨locks, -, hs⟩ := bind_eq_ok.1 h
  cases hs
  unfold rebatchAndExecuteBatches at hbank
  split_ifs at hbank with hempty
  · cases hbank
    exact ⟨rfl, rfl, rfl⟩
  · obtain ⟨tracker, -, hbank⟩ := bind_eq_ok.1 hbank
    obtain ⟨l, hl, hbank⟩ := bind_eq_ok.1 hbank
    cases hbank
    exact ⟨executeBatchesInternal_ticks hl, rfl, rfl⟩

lemma lockEntry_keepsTicks {txs : List ReplayTransaction}
    (h : lockEntry cfg schedule txs fuel s = .ok s') : KeepsTicks s s' := by
  induction fuel generalizing s with
  | zero => cases h
  | succ fuel ih =>
    obtain ⟨⟨locks, results⟩, -, h⟩ := bind_eq_ok.1 h
    dsimp only at h
    split at h
    · cases h
      exact ⟨rfl, rfl, rfl⟩
    · split_ifs at h with hempty
      obtain ⟨s₁, hflush, h⟩ := bind_eq_ok.1 h
      obtain ⟨locks₁, -, h⟩ := bind_eq_ok.1 h
      have hkeeps := flushGroup_keepsTicks hflush
      have hrest := ih h
      exact ⟨hrest.ticks.trans hkeeps.ticks, hrest.maxTickHeight.trans hkeeps.maxTickHeight,
        hrest.tickHashes.trans hkeeps.tickHashes⟩

def tickHashesOf (entries : List ReplayEntry) : List Hash :=
  entries.filterMap fun entry =>
    match entry with
    | .tick hash => some hash
    | .transactions _ => none

lemma processEntry_ticks {entry : ReplayEntry} (h : TicksSoFar maxTickHeight t hashes s)
    (hrun : processEntry cfg schedule fuel s entry = .ok s') :
    TicksSoFar maxTickHeight t (hashes ++ tickHashesOf [entry]) s' := by
  cases entry with
  | transactions txs =>
    have hnone : hashes ++ tickHashesOf [.transactions txs] = hashes := append_nil _
    rw [hnone]
    exact h.of_keepsTicks (lockEntry_keepsTicks hrun)
  | tick hash =>
    have hpush : TicksSoFar maxTickHeight t (hashes ++ [hash])
        { s with tickHashes := s.tickHashes ++ [hash] } :=
      ⟨h.max_eq, by rw [foldl_append, foldl_append, h.ticks]⟩
    unfold processEntry at hrun
    dsimp only at hrun
    split_ifs at hrun with hboundary
    · obtain ⟨s₁, hflush, hs'⟩ := bind_eq_ok.1 hrun
      cases hs'
      exact (hpush.of_keepsTicks (flushGroup_keepsTicks hflush)).registerTicks cfg
    · cases hrun
      exact hpush

lemma processEntries_ticks {entries : List ReplayEntry}
    (h : processEntries cfg schedule fuel bank entries = .ok bank') :
    bank'.maxTickHeight = bank.maxTickHeight ∧
      ticksOf bank'.ledger =
        (tickHashesOf entries).foldl (tickStep bank.maxTickHeight) (ticksOf bank.ledger) := by
  have hfold : ∀ (rest : List ReplayEntry) (hashes : List Hash) (s s' : ReplayState α κ τ),
      TicksSoFar bank.maxTickHeight (ticksOf bank.ledger) hashes s →
      rest.foldlM (processEntry cfg schedule fuel) s = .ok s' →
      TicksSoFar bank.maxTickHeight (ticksOf bank.ledger) (hashes ++ tickHashesOf rest) s' := by
    intro rest
    induction rest with
    | nil =>
      intro hashes s s' hs hrun
      cases hrun
      simpa [tickHashesOf] using hs
    | cons entry rest ih =>
      intro hashes s s' hs hrun
      rw [foldlM_cons] at hrun
      obtain ⟨s₁, hentry, hrun⟩ := bind_eq_ok.1 hrun
      have hall := ih _ _ _ (processEntry_ticks hs hentry) hrun
      rwa [append_assoc, tickHashesOf, tickHashesOf, ← filterMap_append] at hall
  obtain ⟨s, hrun, h⟩ := bind_eq_ok.1 h
  obtain ⟨s', hflush, h⟩ := bind_eq_ok.1 h
  cases h
  have hdone := ((hfold entries [] _ s ⟨rfl, rfl⟩ hrun).of_keepsTicks
    (flushGroup_keepsTicks hflush)).registerTicks cfg
  exact ⟨hdone.max_eq, hdone.ticks⟩

end Process

/-- The hashes of the entries are a proof of history from the given hash. -/
def PohChain (H : PohHasher ν) : Hash → List (Entry ν) → Prop
  | _, [] => True
  | startHash, e :: entries => e.verify H startHash = .ok true ∧ PohChain H e.hash entries

def lastHash (startHash : Hash) (entries : List (Entry ν)) : Hash :=
  (entries.getLast?.map Entry.hash).getD startHash

lemma lastHash_cons (startHash : Hash) (e : Entry ν) (entries : List (Entry ν)) :
    lastHash startHash (e :: entries) = lastHash e.hash entries := by
  unfold lastHash
  rw [getLast?_cons]
  cases entries.getLast? <;> rfl

lemma pohChain_append {xs ys : List (Entry ν)} :
    PohChain H startHash (xs ++ ys) ↔
      PohChain H startHash xs ∧ PohChain H (lastHash startHash xs) ys := by
  induction xs generalizing startHash with
  | nil => simp [PohChain, lastHash]
  | cons e xs ih => rw [cons_append, PohChain, PohChain, ih, lastHash_cons, and_assoc]

lemma lastHash_append (startHash : Hash) (xs ys : List (Entry ν)) :
    lastHash startHash (xs ++ ys) = lastHash (lastHash startHash xs) ys := by
  induction xs generalizing startHash with
  | nil => rfl
  | cons e xs ih => rw [cons_append, lastHash_cons, lastHash_cons, ih]

lemma verifyAll_eq_true_iff :
    Entry.verifyAll H startHash entries = .ok true ↔ PohChain H startHash entries := by
  induction entries generalizing startHash with
  | nil => simp [Entry.verifyAll, PohChain]
  | cons e entries ih =>
    rw [Entry.verifyAll, PohChain, ← ih]
    cases hverify : e.verify H startHash with
    | error f => simp [bind, Except.bind]
    | ok b => cases b <;> simp [bind, Except.bind]

def tickHashes (entries : List (Entry ν)) : List Hash := (entries.filter Entry.isTick).map Entry.hash

lemma tickHashesOf_verified {cfg : ConfirmConfig ν α κ τ} {replayed : List ReplayEntry}
    (h : entries.mapM (verifyEntryTransactions cfg l) = .ok replayed) :
    tickHashesOf replayed = tickHashes entries := by
  induction entries generalizing replayed with
  | nil =>
    cases h
    rfl
  | cons e entries ih =>
    rw [mapM_cons] at h
    obtain ⟨entry, hentry, h⟩ := bind_eq_ok.1 h
    obtain ⟨rest, hrest, h⟩ := bind_eq_ok.1 h
    cases h
    have hih := ih hrest
    unfold verifyEntryTransactions at hentry
    unfold tickHashesOf tickHashes at hih ⊢
    split_ifs at hentry with htick
    · cases hentry
      simp [filter_cons_of_pos htick, hih]
    · obtain ⟨txs, -, hentry⟩ := bind_eq_ok.1 hentry
      cases hentry
      simp only [filterMap_cons, filter_cons_of_neg htick, hih]

structure Confirmed (cfg : ConfirmConfig ν α κ τ) (bank : ReplayBank α κ τ)
    (progress : ConfirmationProgress) (chunk : Chunk ν) (bank' : ReplayBank α κ τ)
    (progress' : ConfirmationProgress) : Prop where
  verified : verifyTicks bank.ledger.tickHeight bank.maxTickHeight cfg.hashesPerTick chunk.entries
    chunk.slotFull progress.tickHashCount = .ok progress'.tickHashCount
  chain : PohChain cfg.hasher progress.lastEntry chunk.entries
  lastEntry : progress'.lastEntry = lastHash progress.lastEntry chunk.entries
  maxTickHeight : bank'.maxTickHeight = bank.maxTickHeight
  ticks : ticksOf bank'.ledger =
    (tickHashes chunk.entries).foldl (tickStep bank.maxTickHeight) (ticksOf bank.ledger)

lemma ofReplay_eq_ok {x : ReplayResult β} (h : ConfirmResult.ofReplay x = .ok b) : x = .ok b := by
  cases x <;> cases h
  rfl

lemma ofPanicking_eq_ok {x : Panicking β} (h : ReplayResult.ofPanicking x = .ok b) : x = .ok b := by
  cases x <;> cases h
  rfl

lemma ofResult_eq_ok {x : TransactionResult β} (h : ReplayResult.ofResult x = .ok b) :
    x = .ok b := by
  cases x <;> cases h
  rfl

lemma ofBlock_eq_ok {x : Except BlockError β} (h : ConfirmResult.ofBlock x = .ok b) :
    x = .ok b := by
  cases x <;> cases h
  rfl

lemma confirmSlotEntries_confirmed [Add κ] {cfg : ConfirmConfig ν α κ τ}
    {progress progress' : ConfirmationProgress}
    (h : confirmSlotEntries cfg schedule fuel false bank progress chunk = .ok (bank', progress')) :
    Confirmed cfg bank progress chunk bank' progress' := by
  obtain ⟨count, hverify, h⟩ := bind_eq_ok.1 h
  obtain ⟨entries, hentries, h⟩ := bind_eq_ok.1 h
  obtain ⟨b, hprocess, h⟩ := bind_eq_ok.1 h
  cases h
  obtain ⟨c, hticks, hverify⟩ := bind_eq_ok.1 hverify
  obtain ⟨verified, hpoh, hverify⟩ := bind_eq_ok.1 hverify
  have hregistered := processEntries_ticks (ofReplay_eq_ok hprocess)
  rw [tickHashesOf_verified (ofResult_eq_ok (ofReplay_eq_ok hentries))] at hregistered
  cases verified with
  | false => cases hverify
  | true =>
    cases hverify
    exact ⟨ofBlock_eq_ok hticks,
      verifyAll_eq_true_iff.1 (ofPanicking_eq_ok (ofReplay_eq_ok hpoh)), rfl,
      hregistered.1, hregistered.2⟩

lemma tickHashesAfter_no_ticks (hashesPerTick : Nat) (hcount : count ≤ u64Max)
    (h : ∀ e ∈ segment, e.isTick = false) :
    tickHashesAfter hashesPerTick count segment =
      some (saturatingAddU64 count (segment.map Entry.numHashes).sum) := by
  induction segment generalizing count with
  | nil => simp [tickHashesAfter, saturatingAddU64, hcount]
  | cons e segment ih =>
    have he := h e mem_cons_self
    have hle : saturatingAddU64 count e.numHashes ≤ u64Max := Nat.min_le_right _ _
    rw [tickHashesAfter, he, if_neg Bool.false_ne_true, ih hle (fun e' he' => h e' (mem_cons_of_mem _ he'))]
    simp only [saturatingAddU64, map_cons, sum_cons, Option.some.injEq]
    omega

lemma tickHashesAfter_of_last_tick (h : tickHashesAfter hashesPerTick count entries = some count')
    {e : Entry ν} (hlast : entries.getLast? = some e) (htick : e.isTick = true) : count' = 0 := by
  obtain ⟨before, rfl⟩ := getLast?_eq_some_iff.1 hlast
  rw [tickHashesAfter_append] at h
  obtain ⟨c, -, hc⟩ := Option.bind_eq_some_iff.1 h
  simp only [tickHashesAfter, htick, if_true] at hc
  split_ifs at hc with heq
  cases hc
  rfl

/-- The entries after a tick up to and including the next one have the hashes of a tick,
unless the count could not tell. -/
lemma segment_hashes (hmax : hashesPerTick < u64Max) {before after : List (Entry ν)}
    {tick : Entry ν}
    (h : tickHashesAfter hashesPerTick 0 (before ++ segment ++ tick :: after) = some count')
    (hbefore : ∀ e, before.getLast? = some e → e.isTick = true)
    (hsegment : ∀ e ∈ segment, e.isTick = false) (htick : tick.isTick = true) :
    (segment.map Entry.numHashes).sum + tick.numHashes = hashesPerTick := by
  rw [append_assoc, tickHashesAfter_append] at h
  obtain ⟨c, hc, h⟩ := Option.bind_eq_some_iff.1 h
  have hzero : c = 0 := by
    cases hget : before.getLast? with
    | none =>
      rw [getLast?_eq_none_iff.1 hget] at hc
      cases hc
      rfl
    | some e => exact tickHashesAfter_of_last_tick hc hget (hbefore e hget)
  subst hzero
  rw [tickHashesAfter_append, tickHashesAfter_no_ticks hashesPerTick (Nat.zero_le _) hsegment,
    Option.bind_some] at h
  simp only [tickHashesAfter, htick, if_true] at h
  split_ifs at h with heq
  simp only [saturatingAddU64] at heq
  omega

structure BlockSoFar (cfg : ConfirmConfig ν α κ τ) (bank : ReplayBank α κ τ) (parentHash : Hash)
    (entries : List (Entry ν)) (s : ReplayBank α κ τ × ConfirmationProgress) : Prop where
  chain : PohChain cfg.hasher parentHash entries
  lastEntry : s.2.lastEntry = lastHash parentHash entries
  counts : carried (cfg.hashesPerTick.getD 0) 0 entries = some s.2.tickHashCount
  max_eq : s.1.maxTickHeight = bank.maxTickHeight
  ticks : ticksOf s.1.ledger =
    (tickHashes entries).foldl (tickStep bank.maxTickHeight) (ticksOf bank.ledger)

section Block

variable {cfg : ConfirmConfig ν α κ τ} {parentHash : Hash}
  {s s' : ReplayBank α κ τ × ConfirmationProgress}

lemma blockSoFar_nil (cfg : ConfirmConfig ν α κ τ) (bank : ReplayBank α κ τ) (parentHash : Hash) :
    BlockSoFar cfg bank parentHash [] (bank, .new parentHash) where
  chain := trivial
  lastEntry := rfl
  counts := by
    unfold carried
    split_ifs <;> rfl
  max_eq := rfl
  ticks := rfl

section

variable (h : BlockSoFar cfg bank parentHash entries s)

include h

lemma BlockSoFar.tickHeight :
    s.1.ledger.tickHeight = bank.ledger.tickHeight + Entry.tickCount entries := by
  have hfst := congrArg Prod.fst h.ticks
  rw [foldl_tickStep_fst, tickHashes, length_map] at hfst
  exact hfst

lemma BlockSoFar.step (hc : Confirmed cfg s.1 s.2 chunk s'.1 s'.2) :
    BlockSoFar cfg bank parentHash (entries ++ chunk.entries) s' where
  chain := pohChain_append.2 ⟨h.chain, h.lastEntry ▸ hc.chain⟩
  lastEntry := by rw [hc.lastEntry, h.lastEntry, lastHash_append]
  counts := by
    rw [carried_append, h.counts, Option.bind_some]
    exact (verifyTicks_eq_ok_iff.1 hc.verified).2.2.2.1
  max_eq := hc.maxTickHeight.trans h.max_eq
  ticks := by
    rw [hc.ticks, h.max_eq, h.ticks, tickHashes, tickHashes, tickHashes, filter_append,
      map_append, foldl_append]

lemma BlockSoFar.missing
    (hc : Confirmed cfg s.1 s.2 chunk s'.1 s'.2) (hfull : chunk.slotFull = false) :
    s'.1.ledger.tickHeight < bank.maxTickHeight := by
  obtain ⟨hle, hiff, -, -⟩ := verifyTicks_eq_ok_iff.1 hc.verified
  have hne : s.1.ledger.tickHeight + Entry.tickCount chunk.entries ≠ s.1.maxTickHeight := fun heq =>
    absurd (hiff.2 heq) (by simp [hfull])
  have hheight := (h.step hc).tickHeight
  rw [tickCount_append, ← Nat.add_assoc, ← h.tickHeight] at hheight
  rw [hheight, ← h.max_eq]
  exact lt_of_le_of_ne hle hne

end

lemma confirmChunks_blockSoFar [Add κ] {chunks : List (Chunk ν × Schedule)}
    (hfull : ∀ c ∈ chunks, c.1.slotFull = false) (h : BlockSoFar cfg bank parentHash entries s)
    (hmissing : s.1.ledger.tickHeight < bank.maxTickHeight)
    (hrun : confirmChunks cfg fuel s.1 s.2 chunks = .ok s') :
    BlockSoFar cfg bank parentHash (entries ++ chunks.flatMap (·.1.entries)) s' ∧
      s'.1.ledger.tickHeight < bank.maxTickHeight := by
  unfold confirmChunks at hrun
  induction chunks generalizing entries s with
  | nil =>
    cases hrun
    exact ⟨by simpa using h, hmissing⟩
  | cons c chunks ih =>
    rw [foldlM_cons] at hrun
    obtain ⟨s₁, hcall, hrun⟩ := bind_eq_ok.1 hrun
    have hc : Confirmed cfg s.1 s.2 c.1 s₁.1 s₁.2 := confirmSlotEntries_confirmed hcall
    have hrest := ih (fun c' hc' => hfull c' (mem_cons_of_mem _ hc')) (h.step hc)
      (h.missing hc (hfull c mem_cons_self)) hrun
    rwa [flatMap_cons, ← append_assoc]

end Block

/-- A slot all of whose calls succeed, the last of which is told that it is full, is a proof of
history from its parent with the ticks of a slot, and the bank ends with the last entry's hash. -/
theorem accepted_slot_well_formed [Add κ] (cfg : ConfirmConfig ν α κ τ) (fuel : Nat)
    (bank : ReplayBank α κ τ) (hstart : bank.ledger.tickHeight < bank.maxTickHeight)
    (parentHash : Hash) (chunks : List (Chunk ν × Schedule)) (last : Chunk ν × Schedule)
    (hchunks : ∀ c ∈ chunks, c.1.slotFull = false) (hlast : last.1.slotFull = true)
    (bank' : ReplayBank α κ τ) (progress' : ConfirmationProgress)
    (hrun : confirmChunks cfg fuel bank (.new parentHash) (chunks ++ [last]) =
      .ok (bank', progress')) :
    PohChain cfg.hasher parentHash ((chunks ++ [last]).flatMap (·.1.entries)) ∧
    Entry.tickCount ((chunks ++ [last]).flatMap (·.1.entries)) =
      bank.maxTickHeight - bank.ledger.tickHeight ∧
    (∃ e, ((chunks ++ [last]).flatMap (·.1.entries)).getLast? = some e ∧ e.isTick = true ∧
      bank'.ledger.blockhashes.head? = some e.hash) ∧
    bank'.ledger.tickHeight = bank.maxTickHeight ∧
    (0 < cfg.hashesPerTick.getD 0 → cfg.hashesPerTick.getD 0 < u64Max →
      ∀ before segment tick after,
        (chunks ++ [last]).flatMap (·.1.entries) = before ++ segment ++ tick :: after →
        (∀ e, before.getLast? = some e → e.isTick = true) →
        (∀ e ∈ segment, e.isTick = false) → tick.isTick = true →
        (segment.map Entry.numHashes).sum + tick.numHashes = cfg.hashesPerTick.getD 0) := by
  unfold confirmChunks at hrun
  rw [foldlM_append] at hrun
  obtain ⟨s₁, hbefore, hcall⟩ := bind_eq_ok.1 hrun
  rw [foldlM_cons] at hcall
  obtain ⟨s₂, hcall, hend⟩ := bind_eq_ok.1 hcall
  cases hend
  have hc : Confirmed cfg s₁.1 s₁.2 last.1 bank' progress' := confirmSlotEntries_confirmed hcall
  obtain ⟨hsofar, hmissing⟩ := confirmChunks_blockSoFar hchunks (blockSoFar_nil cfg bank parentHash)
    hstart hbefore
  rw [nil_append] at hsofar
  have hblock : BlockSoFar cfg bank parentHash ((chunks ++ [last]).flatMap (·.1.entries))
      (bank', progress') := by
    rw [flatMap_append, flatMap_singleton]
    exact hsofar.step hc
  obtain ⟨-, hfull, htrailing, -⟩ := verifyTicks_eq_ok_iff.1 hc.verified
  have hmax := hfull.1 hlast
  have hheight : bank'.ledger.tickHeight = bank.maxTickHeight := by
    have hticks := hblock.tickHeight
    rw [flatMap_append, flatMap_singleton, tickCount_append, ← Nat.add_assoc,
      ← hsofar.tickHeight, hmax, hsofar.max_eq] at hticks
    exact hticks
  -- the last chunk has a tick, so it has a last entry
  have hne : last.1.entries ≠ [] := by
    intro hnil
    rw [hnil, hsofar.max_eq] at hmax
    exact absurd hmax hmissing.ne
  have hget : last.1.entries.getLast? = some (last.1.entries.getLast hne) :=
    getLast?_eq_some_getLast hne
  have hall : ((chunks ++ [last]).flatMap (·.1.entries)).getLast? =
      some (last.1.entries.getLast hne) := by
    rw [flatMap_append, flatMap_singleton, getLast?_append_of_ne_nil _ hne, hget]
  have htick := htrailing hmax _ hget
  generalize last.1.entries.getLast hne = e at hall htick
  generalize (chunks ++ [last]).flatMap (·.1.entries) = entries at hblock hall ⊢
  have hcount := hblock.tickHeight
  rw [hheight] at hcount
  refine ⟨hblock.chain, by omega, ⟨e, hall, htick, ?_⟩, hheight, ?_⟩
  · obtain ⟨before, rfl⟩ := getLast?_eq_some_iff.1 hall
    have hticks := hblock.ticks
    have hsplit : tickHashes (before ++ [e]) = tickHashes before ++ [e.hash] := by
      simp [tickHashes, htick]
    have hlength : (tickHashes before).length = Entry.tickCount before := by
      simp [tickHashes, Entry.tickCount]
    have hone : Entry.tickCount [e] = 1 := by simp [Entry.tickCount, htick]
    rw [tickCount_append, hone] at hcount
    rw [hsplit, foldl_tickStep_last _ _ (by rw [hlength, ticksOf]; omega)] at hticks
    have hhashes : bank'.ledger.blockhashes = e.hash :: (ticksOf bank.ledger).2 :=
      congrArg Prod.snd hticks
    rw [hhashes]
    rfl
  · intro hpos hbound before segment tick after hsplit hbeforeTick hsegment htick'
    have hcounts := hblock.counts
    rw [carried, if_neg hpos.ne', hsplit] at hcounts
    exact segment_hashes hbound hcounts hbeforeTick hsegment htick'

def constantHasher : PohHasher Nat := ⟨fun h => h, fun h _ => h, fun _ => 0⟩

/-- Transactions are told apart by the key of their payer. -/
def payerConfirm (hashesPerTick : Nat) : ConfirmConfig Nat Nat Nat Unit where
  toReplayConfig := countingReplay
  hasher := constantHasher
  hashesPerTick := some hashesPerTick
  verifyTransaction _ payer := .ok (payingReplay payer [] payer)

def oneAfterAnother : Schedule := fun _ threads => threads.flatten

/-- A slot with one tick in three chunks, one of them empty. -/
def threeChunks : List (Chunk Nat × Schedule) :=
  [(⟨[⟨1, 0, [1]⟩], 1, false⟩, oneAfterAnother), (⟨[], 0, false⟩, oneAfterAnother)]

theorem threeChunks_well_formed : ∃ bank' progress',
    confirmChunks (payerConfirm 2) 2 oneTickBank (.new 0)
      (threeChunks ++ [(⟨[⟨1, 0, []⟩], 1, true⟩, oneAfterAnother)]) = .ok (bank', progress') ∧
    bank'.ledger.tickHeight = 1 ∧ bank'.ledger.blockhashes.head? = some 0 := by
  have hrun := accepted_slot_well_formed (payerConfirm 2) 2 oneTickBank (by decide) 0 threeChunks
    (⟨[⟨1, 0, []⟩], 1, true⟩, oneAfterAnother) (by decide) rfl _ _ rfl
  obtain ⟨-, -, ⟨e, he, -, hhash⟩, hheight, -⟩ := hrun
  cases he
  exact ⟨_, _, rfl, hheight, hhash⟩

/-- More hashes than a saturated count can tell apart. -/
def saturatedChunk : Chunk Nat := ⟨[⟨2 ^ 63, 0, [1]⟩, ⟨2 ^ 63, 0, [2]⟩, ⟨1, 0, []⟩], 1, true⟩

lemma constantHasher_verify {n : Nat} (hn : n < u64Max) (payer : Nat) :
    Entry.verify constantHasher ⟨n, 0, [payer]⟩ 0 = .ok true := by
  have hhash : (fun h : Hash => h)^[min (lowPowerMode - 1) (n - 1)] 0 = 0 :=
    congrFun (Function.iterate_id _) 0
  have hremaining : lowPowerMode - min (lowPowerMode - 1) (n - 1) ≠ 1 := by
    unfold lowPowerMode u64Max at *
    omega
  simp only [Entry.verify, nextHash, Poh.new, Poh.hashTimes, Poh.record, constantHasher, hhash,
    hremaining, isEmpty_cons, Bool.false_eq_true, and_false, if_false, unwrapPanicking]
  rfl

/-- With as many hashes per tick as the count can hold, a slot is accepted whose tick has more. -/
theorem saturatedChunk_accepted :
    (∃ bank' progress', confirmChunks (payerConfirm u64Max) 2 oneTickBank (.new 0)
      [(saturatedChunk, oneAfterAnother)] = .ok (bank', progress')) ∧
    (saturatedChunk.entries.map Entry.isTick) = [false, false, true] ∧
    (saturatedChunk.entries.map Entry.numHashes).sum ≠ u64Max := by
  have hpoh : Entry.verifyAll constantHasher 0 saturatedChunk.entries = .ok true := by
    refine verifyAll_eq_true_iff.2 ⟨?_, ?_, rfl, trivial⟩
    · exact constantHasher_verify (by decide) 1
    · exact constantHasher_verify (by decide) 2
  have hticks : verifyTicks 0 1 (some u64Max) saturatedChunk.entries true 0 = .ok 0 := by
    decide +kernel
  have hverify : verifyChunk (payerConfirm u64Max) false oneTickBank (.new 0) saturatedChunk =
      .ok 0 := by
    refine bind_eq_ok.2 ⟨0, congrArg ConfirmResult.ofBlock hticks,
      bind_eq_ok.2 ⟨true, ?_, rfl⟩⟩
    exact congrArg (fun r => ConfirmResult.ofReplay (ReplayResult.ofPanicking r)) hpoh
  have hcall : ∃ s, confirmSlotEntries (payerConfirm u64Max) oneAfterAnother 2 false oneTickBank
      (.new 0) saturatedChunk = .ok s :=
    ⟨_, bind_eq_ok.2 ⟨0, hverify, bind_eq_ok.2 ⟨_, rfl, bind_eq_ok.2 ⟨_, rfl, rfl⟩⟩⟩⟩
  obtain ⟨⟨bank', progress'⟩, hcall⟩ := hcall
  refine ⟨⟨bank', progress', ?_⟩, rfl, by decide +kernel⟩
  rw [confirmChunks, foldlM_cons, hcall]
  rfl

end Nuah.Proofs
