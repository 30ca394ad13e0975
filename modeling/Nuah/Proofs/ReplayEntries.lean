import Nuah.Proofs.ReplayGroups

/-!
# Replay of entries is sequential execution

What is still pending after some entries is the group of batches that hold their locks, and
ticks that do not end the block. An error means that the entries so far cannot succeed one at
a time either.
-/

namespace Nuah.Proofs

open Interleaving AccountLocks List

variable {txs : List ReplayTransaction} {locks : AccountLocks}
  {granted : List SanitizedTransaction} {schedule : Schedule}

variable {α κ τ : Type} {cfg : ReplayConfig α κ τ}

variable {batches : List (List ReplayTransaction)} {l : Ledger α κ} {bank : ReplayBank α κ τ}
  {entries : List ReplayEntry}

/-! ## Slicing -/

lemma sliceByCost_flatten (target : Nat) (txs : List ReplayTransaction) (cost : Nat)
    (slice : List ReplayTransaction) (hslice : txs = [] → slice = []) :
    (sliceByCost target txs cost slice).flatten = slice ++ txs := by
  induction txs generalizing cost slice with
  | nil => simp [sliceByCost, hslice rfl]
  | cons tx txs ih =>
    rw [sliceByCost]
    split_ifs with h
    · rw [flatten_cons, ih 0 [] (fun _ => rfl)]
      simp
    · rw [not_or] at h
      rw [ih _ _ (fun hnil => absurd hnil h.2)]
      simp

lemma rebatch_flatten (threadCount : Nat) (batches : List (List ReplayTransaction)) :
    (rebatch threadCount batches).flatten = batches.flatten := by
  unfold rebatch
  dsimp only
  split_ifs
  · rw [sliceByCost_flatten _ _ _ _ (fun _ => rfl), nil_append]
  · rfl

lemma rebatch_ne_nil (threadCount : Nat) (h : batches ≠ []) : rebatch threadCount batches ≠ [] := by
  unfold rebatch
  dsimp only
  split_ifs with hcost
  · intro hnil
    have hflatten := sliceByCost_flatten (batches.flatten.foldl
      (fun cost tx => saturatingAddU64 cost tx.cost) 0 / threadCount) batches.flatten 0 [] fun _ => rfl
    rw [hnil] at hflatten
    have htxs : batches.flatten = [] := hflatten.symm
    rw [htxs] at hcost
    exact absurd hcost (Nat.not_lt_zero _)
  · exact h

/-! ## The locks of entries -/

def locked (txs : List ReplayTransaction) : List SanitizedTransaction :=
  txs.map (·.toSanitizedTransaction)

def transactionsOf (entries : List ReplayEntry) : List ReplayTransaction :=
  entries.flatMap fun entry =>
    match entry with
    | .tick _ => []
    | .transactions txs => txs

/-- All transactions can be locked together where no locks are held. -/
def CanBeLocked (cfg : ReplayConfig α κ τ) (txs : List ReplayTransaction) : Prop :=
  ∃ locks results, AccountLocks.empty.lockAccounts (locked txs) cfg.txAccountLockLimit =
    .ok (locks, results) ∧ ∀ r ∈ results, r = .ok ()

lemma canBeLocked_iff : CanBeLocked cfg txs ↔
    (∀ tx ∈ locked txs, tx.validateAccountLocks cfg.txAccountLockLimit = .ok ()) ∧
      (locked txs).Pairwise (fun a b => ¬ Conflict a b) := by
  obtain ⟨locks, results, hlock, -, -, hiff⟩ :=
    lockAccounts_all_ok_iff held_empty (locked txs) cfg.txAccountLockLimit
  rw [append_nil] at hiff
  rw [← hiff]
  constructor
  · rintro ⟨locks', results', hlock', hall⟩
    cases hlock.symm.trans hlock'
    exact hall
  · intro hall
    exact ⟨locks, results, hlock, hall⟩

lemma addCosts_nil (t : τ) : addCosts cfg t [] = .ok t := by
  unfold addCosts
  split_ifs <;> rfl

lemma addCosts_append (t : τ) (txs txs' : List ReplayTransaction) :
    addCosts cfg t (txs ++ txs') = addCosts cfg t txs >>= fun t' => addCosts cfg t' txs' := by
  unfold addCosts
  split_ifs
  · exact foldlM_append
  · rfl

lemma lockEntry_attempt (cfg : ReplayConfig α κ τ) (txs : List ReplayTransaction)
    {pending : List ReplayTransaction} (hheld : Held locks (locked pending)) :
    ∃ locks' results, locks.lockAccounts (locked txs) cfg.txAccountLockLimit =
        .ok (locks', results) ∧
      (results.forM id = .ok () ∧ CanBeLocked cfg txs ∧ Held locks' (locked (pending ++ txs)) ∨
        (∃ e, results.forM id = .error e) ∧ (pending = [] → ¬ CanBeLocked cfg txs) ∧
          Held locks' (grantedOf (lockedBatch txs results) ++ locked pending)) := by
  obtain ⟨locks', results, hlock, hlen, hheld', hiff⟩ :=
    lockAccounts_all_ok_iff hheld (locked txs) cfg.txAccountLockLimit
  refine ⟨locks', results, hlock, ?_⟩
  cases hresults : results.forM id with
  | ok u =>
    have hall := ExceptLoops.forM_eq_ok.1 hresults
    obtain ⟨hvalid, hexclusive⟩ := hiff.1 hall
    refine .inl ⟨rfl, canBeLocked_iff.2 ⟨hvalid, (pairwise_append.1 hexclusive).1⟩, ?_⟩
    rw [grantedOf_zip_of_ok hlen hall] at hheld'
    refine hheld'.perm ?_
    rw [locked, locked, locked, map_append]
    exact perm_append_comm
  | error e =>
    refine .inr ⟨⟨e, rfl⟩, ?_, hheld'⟩
    rintro rfl hcan
    rw [canBeLocked_iff] at hcan
    have hall := hiff.2 (by simpa [locked] using hcan)
    cases hresults.symm.trans (ExceptLoops.forM_eq_ok.2 hall)

lemma grantedOf_lockedBatch (txs : List ReplayTransaction) :
    grantedOf (lockedBatch txs (txs.map fun _ => .ok ())) = locked txs :=
  grantedOf_zip_of_ok (by simp) (by simp)

lemma unlockBatches_held (batches : List (List ReplayTransaction))
    (h : Held locks (locked batches.flatten ++ granted)) :
    ∃ locks', unlockBatches locks batches = .ok locks' ∧ Held locks' granted := by
  unfold unlockBatches
  induction batches generalizing locks with
  | nil => exact ⟨locks, rfl, h⟩
  | cons batch batches ih =>
    have h' : Held locks (grantedOf (lockedBatch batch (batch.map fun _ => .ok ())) ++
        (locked batches.flatten ++ granted)) := by
      rw [grantedOf_lockedBatch]
      simpa [locked] using h
    obtain ⟨locks₁, hunlock, hheld⟩ := unlockAccounts_held _ h'
    obtain ⟨locks', hfold, hheld'⟩ := ih hheld
    refine ⟨locks', ?_, hheld'⟩
    rw [foldlM_cons, hunlock]
    exact hfold

/-! ## Ticks that do not end the block -/

def addTicks (n : Nat) (l : Ledger α κ) : Ledger α κ := { l with tickHeight := l.tickHeight + n }

def NoBoundary (maxTickHeight tickHeight n : Nat) : Prop :=
  ∀ i < n, tickHeight + i + 1 ≠ maxTickHeight

variable (cfg) in
lemma registerTicks_of_noBoundary {maxTickHeight : Nat} (hashes : List Hash)
    (h : NoBoundary maxTickHeight l.tickHeight hashes.length) :
    l.registerTicks cfg maxTickHeight hashes = addTicks hashes.length l := by
  unfold Ledger.registerTicks
  induction hashes generalizing l with
  | nil => rfl
  | cons hash hashes ih =>
    have hfirst : l.registerTick cfg maxTickHeight hash = addTicks 1 l :=
      if_neg (h 0 (by simp))
    rw [foldl_cons, hfirst, ih]
    · simp only [addTicks, length_cons]
      congr 1
      omega
    · intro i hi
      have := h (i + 1) (by simpa using hi)
      simp only [addTicks]
      omega

lemma outcomeOn_addTicks (n : Nat) (l : Ledger α κ) (tx : ReplayTransaction) :
    outcomeOn cfg (addTicks n l) tx = outcomeOn cfg l tx :=
  outcomeOn_congr (fun _ _ => rfl) Iff.rfl rfl

variable [AddCommMonoid κ]

variable (cfg) in
lemma executeTransactions_addTicks (n : Nat) (txs : List ReplayTransaction) (l : Ledger α κ) :
    txs.foldlM (executeTransaction cfg) (addTicks n l) =
      (txs.foldlM (executeTransaction cfg) l).map (addTicks n) := by
  induction txs generalizing l with
  | nil => rfl
  | cons tx txs ih =>
    rw [foldlM_cons, foldlM_cons, executeTransaction_eq, executeTransaction_eq, outcomeOn_addTicks]
    cases outcomeOn cfg l tx with
    | error e => rfl
    | ok effect => exact ih ((l.store tx effect.written).record tx effect.counted)

lemma executeTransactions_tickHeight {l' : Ledger α κ}
    (h : txs.foldlM (executeTransaction cfg) l = .ok l') : l'.tickHeight = l.tickHeight := by
  refine SatisfiesM_Except_eq.1 (satisfiesM_foldlM (motive := fun l' => l'.tickHeight = l.tickHeight)
    rfl fun l₁ hl₁ tx _ => SatisfiesM_Except_eq.2 fun l₂ hl₂ => ?_) l' h
  rw [executeTransaction_eq] at hl₂
  cases heffect : outcomeOn cfg l₁ tx with
  | error e =>
    rw [heffect] at hl₂
    cases hl₂
  | ok effect =>
    rw [heffect] at hl₂
    cases hl₂
    exact hl₁

/-! ## Executing the group -/

lemma rebatchAndExecuteBatches_eq
    (hschedule : ∀ call threads, Interleaves threads (schedule call threads)) (call : Nat)
    (bank : ReplayBank α κ τ) (hapart : batches.flatten.Pairwise Apart) :
    (∃ l t, batches.flatten.foldlM (executeTransaction cfg) bank.ledger = .ok l ∧
      addCosts cfg bank.costTracker batches.flatten = .ok t ∧
      rebatchAndExecuteBatches cfg schedule call bank batches =
        .ok { bank with ledger := l, costTracker := t }) ∨
    (∃ e, rebatchAndExecuteBatches cfg schedule call bank batches = .error (.err e)) ∧
      ((∃ e, batches.flatten.foldlM (executeTransaction cfg) bank.ledger = .error e) ∨
        ∃ e, addCosts cfg bank.costTracker batches.flatten = .error e) := by
  unfold rebatchAndExecuteBatches
  by_cases hempty : batches = []
  · subst hempty
    exact .inl ⟨bank.ledger, bank.costTracker, rfl, addCosts_nil _, rfl⟩
  · have hisEmpty : batches.isEmpty = false := by simpa using hempty
    simp only [hisEmpty, Bool.false_eq_true, if_false]
    cases hcosts : addCosts cfg bank.costTracker batches.flatten with
    | error e => exact .inr ⟨⟨e, rfl⟩, .inr ⟨e, rfl⟩⟩
    | ok t =>
      have hflatten := rebatch_flatten cfg.threadCount batches
      rcases executeBatchesInternal_eq (hflatten ▸ hapart) (rebatch_ne_nil cfg.threadCount hempty)
          (hschedule call _) bank.ledger with ⟨l, hfold, hrun⟩ | ⟨e, e', hfold, hrun⟩
      · rw [hflatten] at hfold
        refine .inl ⟨l, t, hfold, rfl, ?_⟩
        exact bind_eq_ok.2 ⟨t, rfl, bind_eq_ok.2 ⟨l, hrun, rfl⟩⟩
      · rw [hflatten] at hfold
        refine .inr ⟨⟨e', ?_⟩, .inl ⟨e, hfold⟩⟩
        simp only [ReplayResult.ofResult, hrun]
        rfl

lemma flushGroup_eq (hschedule : ∀ call threads, Interleaves threads (schedule call threads))
    (s : ReplayState α κ τ) (hapart : s.batches.flatten.Pairwise Apart)
    (hheld : Held s.bank.locks (locked s.batches.flatten ++ granted)) :
    (∃ l t locks, s.batches.flatten.foldlM (executeTransaction cfg) s.bank.ledger = .ok l ∧
      addCosts cfg s.bank.costTracker s.batches.flatten = .ok t ∧ Held locks granted ∧
      flushGroup cfg schedule s = .ok { s with
        bank := { s.bank with ledger := l, costTracker := t, locks := locks }
        batches := []
        calls := s.calls + 1 }) ∨
    (∃ e, flushGroup cfg schedule s = .error (.err e)) ∧
      ((∃ e, s.batches.flatten.foldlM (executeTransaction cfg) s.bank.ledger = .error e) ∨
        ∃ e, addCosts cfg s.bank.costTracker s.batches.flatten = .error e) := by
  unfold flushGroup
  rcases rebatchAndExecuteBatches_eq hschedule s.calls s.bank hapart with
    ⟨l, t, hfold, hcosts, hrun⟩ | ⟨⟨e, hrun⟩, hfailed⟩
  · obtain ⟨locks, hunlock, hheld'⟩ := unlockBatches_held s.batches hheld
    refine .inl ⟨l, t, locks, hfold, hcosts, hheld', ?_⟩
    exact bind_eq_ok.2 ⟨_, hrun, bind_eq_ok.2 ⟨locks, hunlock, rfl⟩⟩
  · refine .inr ⟨⟨e, ?_⟩, hfailed⟩
    rw [hrun]
    rfl

/-! ## The entries so far -/

structure Succeeds (cfg : ReplayConfig α κ τ) (bank : ReplayBank α κ τ)
    (entries : List ReplayEntry) : Prop where
  lockable : ∀ txs, .transactions txs ∈ entries → CanBeLocked cfg txs
  costs : ∃ t, addCosts cfg bank.costTracker (transactionsOf entries) = .ok t
  executed : ∃ l, executeSequentially cfg bank.maxTickHeight bank.ledger entries = .ok l

lemma executeSequentially_append (maxTickHeight : Nat) (l : Ledger α κ)
    (entries entries' : List ReplayEntry) :
    executeSequentially cfg maxTickHeight l (entries ++ entries') =
      executeSequentially cfg maxTickHeight l entries >>= fun l' =>
        executeSequentially cfg maxTickHeight l' entries' :=
  foldlM_append

lemma Succeeds.of_append {entries' : List ReplayEntry}
    (h : Succeeds cfg bank (entries ++ entries')) : Succeeds cfg bank entries where
  lockable txs htxs := h.lockable txs (mem_append_left _ htxs)
  costs := by
    obtain ⟨t, ht⟩ := h.costs
    rw [transactionsOf, flatMap_append, addCosts_append] at ht
    obtain ⟨t', ht', -⟩ := bind_eq_ok.1 ht
    exact ⟨t', ht'⟩
  executed := by
    obtain ⟨l, hl⟩ := h.executed
    rw [executeSequentially_append] at hl
    obtain ⟨l', hl', -⟩ := bind_eq_ok.1 hl
    exact ⟨l', hl'⟩

/-- Transactions with the same message hash lock the same accounts. -/
def SameHashSameLocks (txs : List ReplayTransaction) : Prop :=
  ∀ a ∈ txs, ∀ b ∈ txs, a.messageHash = b.messageHash →
    (∀ k, k ∈ a.writableKeys ↔ k ∈ b.writableKeys) ∧ ∀ k, k ∈ a.readonlyKeys ↔ k ∈ b.readonlyKeys

structure Replayed (cfg : ReplayConfig α κ τ) (bank : ReplayBank α κ τ) (entries : List ReplayEntry)
    (s : ReplayState α κ τ) : Prop where
  pending : ∀ tx ∈ s.batches.flatten, tx ∈ transactionsOf entries
  maxTickHeight : s.bank.maxTickHeight = bank.maxTickHeight
  noBoundary : NoBoundary bank.maxTickHeight s.bank.ledger.tickHeight s.tickHashes.length
  lockable : ∀ txs, .transactions txs ∈ entries → CanBeLocked cfg txs
  costs : addCosts cfg bank.costTracker (transactionsOf entries) =
    addCosts cfg s.bank.costTracker s.batches.flatten
  sequential : executeSequentially cfg bank.maxTickHeight bank.ledger entries =
    (s.batches.flatten.foldlM (executeTransaction cfg) s.bank.ledger).map
      (addTicks s.tickHashes.length)

section Replayed

variable {s : ReplayState α κ τ}

lemma replayed_start (bank : ReplayBank α κ τ) : Replayed cfg bank [] ⟨bank, [], [], 0⟩ where
  pending := by simp
  maxTickHeight := rfl
  noBoundary i hi := absurd hi (Nat.not_lt_zero i)
  lockable := by simp
  costs := rfl
  sequential := rfl

lemma Replayed.apart (h : Replayed cfg bank entries s)
    (hsame : SameHashSameLocks (transactionsOf entries))
    (hheld : Held s.bank.locks (locked s.batches.flatten ++ granted)) :
    s.batches.flatten.Pairwise Apart := by
  have hexclusive := (pairwise_append.1 hheld.exclusive).1
  refine (pairwise_map.1 hexclusive).imp_of_mem fun {a b} ha hb hconflict => ?_
  refine ⟨hconflict, fun hhash => hconflict ?_⟩
  obtain ⟨k, hk⟩ := exists_mem_of_ne_nil _ a.payer_writable
  have hk' := ((hsame a (h.pending a ha) b (h.pending b hb) hhash).1 k).1 hk
  exact ⟨k, writableKeys_subset hk, writableKeys_subset hk', .inl hk⟩

lemma Replayed.flush (hschedule : ∀ call threads, Interleaves threads (schedule call threads))
    (h : Replayed cfg bank entries s) (hsame : SameHashSameLocks (transactionsOf entries))
    (hheld : Held s.bank.locks (locked s.batches.flatten ++ granted)) :
    (∃ s', flushGroup cfg schedule s = .ok s' ∧ Held s'.bank.locks granted ∧ s'.batches = [] ∧
      s'.tickHashes = s.tickHashes ∧ s'.bank.ledger.tickHeight = s.bank.ledger.tickHeight ∧
      Replayed cfg bank entries s') ∨
    (∃ e, flushGroup cfg schedule s = .error (.err e)) ∧ ¬ Succeeds cfg bank entries := by
  rcases flushGroup_eq hschedule s (h.apart hsame hheld) hheld with
    ⟨l, t, locks, hfold, hcosts, hheld', hflush⟩ | ⟨herror, hfailed⟩
  · have htick := executeTransactions_tickHeight hfold
    refine .inl ⟨_, hflush, hheld', rfl, rfl, htick, ?_⟩
    refine ⟨by simp, h.maxTickHeight, ?_, h.lockable, ?_, ?_⟩
    · simp only [htick]
      exact h.noBoundary
    · rw [h.costs, hcosts]
      exact (addCosts_nil t).symm
    · rw [h.sequential, hfold]
      rfl
  · refine .inr ⟨herror, fun hsucceeds => ?_⟩
    rcases hfailed with ⟨e, he⟩ | ⟨e, he⟩
    · obtain ⟨l, hl⟩ := hsucceeds.executed
      rw [h.sequential, he] at hl
      cases hl
    · obtain ⟨t, ht⟩ := hsucceeds.costs
      rw [h.costs, he] at ht
      cases ht

section

variable (h : Replayed cfg bank entries s)

include h

lemma Replayed.push (hlock : CanBeLocked cfg txs) (locks : AccountLocks) :
    Replayed cfg bank (entries ++ [.transactions txs])
      { s with bank := { s.bank with locks := locks }, batches := s.batches ++ [txs] } where
  pending := by
    intro tx htx
    simp only [flatten_append, mem_append, flatten_singleton] at htx
    simp only [transactionsOf, flatMap_append, mem_append, flatMap_singleton]
    exact htx.imp_left (h.pending tx)
  maxTickHeight := h.maxTickHeight
  noBoundary := h.noBoundary
  lockable := by
    intro txs' htxs'
    rcases mem_append.1 htxs' with hmem | hmem
    · exact h.lockable txs' hmem
    · cases mem_singleton.1 hmem
      exact hlock
  costs := by
    have hcosts := h.costs
    unfold transactionsOf at hcosts ⊢
    rw [flatMap_append, addCosts_append, hcosts, flatten_append, addCosts_append]
    simp
  sequential := by
    have hentry : ∀ l, executeSequentially cfg bank.maxTickHeight l [.transactions txs] =
        txs.foldlM (executeTransaction cfg) l := by
      intro l
      simp [executeSequentially]
    rw [executeSequentially_append, h.sequential, flatten_append, foldlM_append]
    cases s.batches.flatten.foldlM (executeTransaction cfg) s.bank.ledger with
    | error e => rfl
    | ok l =>
      have hticks := executeTransactions_addTicks cfg s.tickHashes.length txs l
      simpa [Except.map, bind, Except.bind, hentry] using hticks

lemma Replayed.tick (hash : Hash)
    (hboundary : s.bank.ledger.tickHeight + (s.tickHashes.length + 1) ≠ bank.maxTickHeight) :
    Replayed cfg bank (entries ++ [.tick hash]) { s with tickHashes := s.tickHashes ++ [hash] } where
  pending := by simpa [transactionsOf] using h.pending
  maxTickHeight := h.maxTickHeight
  noBoundary := by
    intro i hi
    rw [length_append, length_singleton] at hi
    rcases Nat.lt_succ_iff_lt_or_eq.1 hi with hlt | rfl
    · exact h.noBoundary i hlt
    · exact hboundary
  lockable := by simpa using h.lockable
  costs := by simpa [transactionsOf] using h.costs
  sequential := by
    rw [executeSequentially_append, h.sequential]
    cases hfold : s.batches.flatten.foldlM (executeTransaction cfg) s.bank.ledger with
    | error e => rfl
    | ok l =>
      have htick : (addTicks s.tickHashes.length l).registerTick cfg bank.maxTickHeight hash =
          addTicks (s.tickHashes ++ [hash]).length l := by
        refine (if_neg ?_).trans ?_
        · simp only [addTicks, executeTransactions_tickHeight hfold]
          exact hboundary
        · simp [addTicks, Nat.add_assoc]
      exact congrArg Except.ok htick

lemma Replayed.registerTicks (hbatches : s.batches = [])
    (hash : Hash) : Replayed cfg bank (entries ++ [.tick hash])
      (registerTicks cfg { s with tickHashes := s.tickHashes ++ [hash] }) where
  pending := by simp [Nuah.registerTicks, hbatches]
  maxTickHeight := h.maxTickHeight
  noBoundary i hi := absurd hi (Nat.not_lt_zero i)
  lockable := by simpa using h.lockable
  costs := by simpa [transactionsOf, Nuah.registerTicks] using h.costs
  sequential := by
    have hledger : s.bank.ledger.registerTicks cfg s.bank.maxTickHeight (s.tickHashes ++ [hash]) =
        (addTicks s.tickHashes.length s.bank.ledger).registerTick cfg bank.maxTickHeight hash := by
      rw [h.maxTickHeight, ← registerTicks_of_noBoundary cfg s.tickHashes h.noBoundary]
      simp [Ledger.registerTicks]
    rw [executeSequentially_append, h.sequential]
    simp only [Nuah.registerTicks, hbatches, hledger]
    rfl

end

/-! ## Locking an entry -/

/-- The entries are replayed up to what is pending, or they cannot succeed. -/
def ReplayedBy (cfg : ReplayConfig α κ τ) (bank : ReplayBank α κ τ) (entries : List ReplayEntry)
    (result : ReplayResult (ReplayState α κ τ)) : Prop :=
  (∃ s, result = .ok s ∧ Held s.bank.locks (locked s.batches.flatten) ∧
    Replayed cfg bank entries s) ∨
  (∃ e, result = .error (.err e)) ∧ ¬ Succeeds cfg bank entries

lemma lockEntry_alone (schedule : Schedule) (h : Replayed cfg bank entries s)
    (hheld : Held s.bank.locks []) (hbatches : s.batches = []) (txs : List ReplayTransaction)
    (fuel : Nat) :
    ReplayedBy cfg bank (entries ++ [.transactions txs])
      (lockEntry cfg schedule txs (fuel + 1) s) := by
  have hnone : Held s.bank.locks (locked []) := hheld
  obtain ⟨locks, results, hlock, ⟨hresults, hcan, hheld'⟩ | ⟨⟨e, hresults⟩, hcannot, -⟩⟩ :=
    lockEntry_attempt cfg txs hnone
  · refine .inl ⟨_, ?_, ?_, h.push hcan locks⟩
    · refine bind_eq_ok.2 ⟨(locks, results), congrArg ReplayResult.ofPanicking hlock, ?_⟩
      simp only [hresults]
    · simpa [hbatches] using hheld'
  · refine .inr ⟨⟨e, ?_⟩, fun hsucceeds => hcannot rfl (hsucceeds.lockable txs (by simp))⟩
    unfold lockEntry
    rw [show s.bank.locks.lockAccounts (txs.map (·.toSanitizedTransaction)) cfg.txAccountLockLimit =
      .ok (locks, results) from hlock]
    simp only [ReplayResult.ofPanicking, hresults, hbatches, bind, Except.bind, isEmpty_nil,
      if_true]

section

variable (hschedule : ∀ call threads, Interleaves threads (schedule call threads))

include hschedule

lemma lockEntry_eq
    (h : Replayed cfg bank entries s) (hsame : SameHashSameLocks (transactionsOf entries))
    (hheld : Held s.bank.locks (locked s.batches.flatten)) (txs : List ReplayTransaction)
    (fuel : Nat) :
    ReplayedBy cfg bank (entries ++ [.transactions txs])
      (lockEntry cfg schedule txs (fuel + 2) s) := by
  by_cases hbatches : s.batches = []
  · exact lockEntry_alone schedule h (by simpa [hbatches, locked] using hheld) hbatches txs (fuel + 1)
  · have hisEmpty : s.batches.isEmpty = false := by simpa using hbatches
    obtain ⟨locks, results, hlock, ⟨hresults, hcan, hheld'⟩ | ⟨⟨e, hresults⟩, -, hheld'⟩⟩ :=
      lockEntry_attempt cfg txs hheld
    · refine .inl ⟨_, ?_, ?_, h.push hcan locks⟩
      · refine bind_eq_ok.2 ⟨(locks, results), congrArg ReplayResult.ofPanicking hlock, ?_⟩
        simp only [hresults]
      · simpa using hheld'
    · -- the group is executed while the entry still holds the locks it did get
      have h' : Replayed cfg bank entries { s with bank := { s.bank with locks := locks } } := { h with }
      have hretry : lockEntry cfg schedule txs (fuel + 2) s = (do
          let s ← flushGroup cfg schedule { s with bank := { s.bank with locks := locks } }
          let locks ← ReplayResult.ofPanicking
            (s.bank.locks.unlockAccounts (lockedBatch txs results))
          lockEntry cfg schedule txs (fuel + 1)
            { s with bank := { s.bank with locks := locks } }) := by
        rw [lockEntry]
        rw [show s.bank.locks.lockAccounts (txs.map (·.toSanitizedTransaction)) cfg.txAccountLockLimit =
          .ok (locks, results) from hlock]
        simp only [ReplayResult.ofPanicking, hresults, hisEmpty, bind, Except.bind,
          Bool.false_eq_true, if_false]
      rw [hretry]
      rcases h'.flush hschedule hsame (hheld'.perm perm_append_comm) with
        ⟨s', hflush, hheld₁, hbatches', -, -, hreplayed⟩ | ⟨⟨e, hflush⟩, hnot⟩
      · rw [hflush]
        obtain ⟨locks₁, hunlock, hheld₂⟩ := unlockAccounts_held (lockedBatch txs results)
          (hheld₁.perm (.of_eq (append_nil _).symm))
        have h'' : Replayed cfg bank entries { s' with bank := { s'.bank with locks := locks₁ } } :=
          { hreplayed with }
        have hrest := lockEntry_alone schedule h'' hheld₂ hbatches' txs fuel
        simpa [hunlock, ReplayResult.ofPanicking, bind, Except.bind] using hrest
      · rw [hflush]
        exact .inr ⟨⟨e, rfl⟩, fun hsucceeds => hnot hsucceeds.of_append⟩

lemma processEntry_eq
    (h : Replayed cfg bank entries s) (hsame : SameHashSameLocks (transactionsOf entries))
    (hheld : Held s.bank.locks (locked s.batches.flatten)) (entry : ReplayEntry) (fuel : Nat) :
    ReplayedBy cfg bank (entries ++ [entry]) (processEntry cfg schedule (fuel + 2) s entry) := by
  cases entry with
  | transactions txs => exact lockEntry_eq hschedule h hsame hheld txs fuel
  | tick hash =>
    unfold processEntry
    simp only [length_append, length_singleton, h.maxTickHeight]
    by_cases hboundary : s.bank.ledger.tickHeight + (s.tickHashes.length + 1) = bank.maxTickHeight
    · simp only [hboundary, if_true]
      -- the group does not depend on the ticks that wait for it
      have hwait : flushGroup cfg schedule { s with tickHashes := s.tickHashes ++ [hash] } =
          (flushGroup cfg schedule s).map
            (fun s' => { s' with tickHashes := s.tickHashes ++ [hash] }) := by
        unfold flushGroup
        dsimp only
        cases rebatchAndExecuteBatches cfg schedule s.calls s.bank s.batches with
        | error e => rfl
        | ok bank' =>
          simp only [bind, Except.bind]
          cases unlockBatches bank'.locks s.batches <;> rfl
      rw [hwait]
      rcases h.flush hschedule hsame (hheld.perm (.of_eq (append_nil _).symm)) with
        ⟨s', hflush, hheld', hbatches, hhashes, -, hreplayed⟩ | ⟨⟨e, hflush⟩, hnot⟩
      · rw [hflush, ← hhashes]
        refine .inl ⟨_, rfl, ?_, hreplayed.registerTicks hbatches hash⟩
        simpa [registerTicks, hbatches, locked] using hheld'
      · rw [hflush]
        exact .inr ⟨⟨e, rfl⟩, fun hsucceeds => hnot hsucceeds.of_append⟩
    · simp only [hboundary, if_false]
      exact .inl ⟨_, rfl, hheld, h.tick hash hboundary⟩

lemma processAll_eq (fuel : Nat) (rest : List ReplayEntry)
    (hsame : SameHashSameLocks (transactionsOf (entries ++ rest)))
    (h : Replayed cfg bank entries s) (hheld : Held s.bank.locks (locked s.batches.flatten)) :
    ReplayedBy cfg bank (entries ++ rest)
      (rest.foldlM (processEntry cfg schedule (fuel + 2)) s) := by
  induction rest generalizing entries s with
  | nil => exact .inl ⟨s, rfl, hheld, by simpa using h⟩
  | cons entry rest ih =>
    have hsame' : SameHashSameLocks (transactionsOf entries) := by
      have hsub : ∀ tx ∈ transactionsOf entries, tx ∈ transactionsOf (entries ++ entry :: rest) := by
        intro tx htx
        rw [transactionsOf, flatMap_append]
        exact mem_append_left _ htx
      exact fun a ha b hb => hsame a (hsub a ha) b (hsub b hb)
    rw [foldlM_cons]
    rw [append_cons] at hsame ⊢
    rcases processEntry_eq hschedule h hsame' hheld entry fuel with
      ⟨s', hentry, hheld', hreplayed⟩ | ⟨⟨e, hentry⟩, hnot⟩
    · rw [hentry]
      exact ih hsame hreplayed hheld'
    · rw [hentry]
      exact .inr ⟨⟨e, rfl⟩, fun hsucceeds => hnot hsucceeds.of_append⟩

end

end Replayed

lemma held_of_unlocked (hwrite : ∀ k, k ∉ locks.writeLocks) (hread : ∀ k, k ∉ locks.readonlyLocks) :
    Held locks [] where
  writeLocks_eq k := by simp [hwrite k]
  readonlyLocks_eq k := by
    rw [Std.TreeMap.getElem?_eq_none (hread k)]
    rfl
  exclusive := .nil
  nodup := by simp

/-- On a bank that holds no locks, in whatever order the threads run, entries succeed exactly if
each can be locked, the cost tracker accepts them and executing one transaction at a time gives no
error, and they leave the ledger that this leaves. -/
theorem process_entries_sequential (cfg : ReplayConfig α κ τ) (schedule : Schedule)
    (hschedule : ∀ call threads, Interleaves threads (schedule call threads)) (fuel : Nat)
    (hfuel : 2 ≤ fuel) (bank : ReplayBank α κ τ) (hwrite : ∀ k, k ∉ bank.locks.writeLocks)
    (hread : ∀ k, k ∉ bank.locks.readonlyLocks) (entries : List ReplayEntry)
    (hsame : SameHashSameLocks (transactionsOf entries)) :
    ((∃ bank', processEntries cfg schedule fuel bank entries = .ok bank') ∨
      ∃ e, processEntries cfg schedule fuel bank entries = .error (.err e)) ∧
    ((∃ bank', processEntries cfg schedule fuel bank entries = .ok bank') ↔
      (∀ txs, .transactions txs ∈ entries → CanBeLocked cfg txs) ∧
      (∃ t, addCosts cfg bank.costTracker (transactionsOf entries) = .ok t) ∧
      ∃ l, executeSequentially cfg bank.maxTickHeight bank.ledger entries = .ok l) ∧
    ∀ bank', processEntries cfg schedule fuel bank entries = .ok bank' →
      executeSequentially cfg bank.maxTickHeight bank.ledger entries = .ok bank'.ledger := by
  obtain ⟨fuel, rfl⟩ := Nat.exists_eq_add_of_le' hfuel
  have hdone : (∃ bank', processEntries cfg schedule (fuel + 2) bank entries = .ok bank' ∧
      Succeeds cfg bank entries ∧
      executeSequentially cfg bank.maxTickHeight bank.ledger entries = .ok bank'.ledger) ∨
      (∃ e, processEntries cfg schedule (fuel + 2) bank entries = .error (.err e)) ∧
        ¬ Succeeds cfg bank entries := by
    unfold processEntries
    have hsame' : SameHashSameLocks (transactionsOf ([] ++ entries)) := hsame
    rcases processAll_eq hschedule fuel entries hsame' (replayed_start bank)
      (held_of_unlocked hwrite hread) with ⟨s, hrun, hheld, hreplayed⟩ | ⟨⟨e, hrun⟩, hnot⟩
    · rw [hrun]
      rw [nil_append] at hreplayed
      rcases hreplayed.flush hschedule hsame (hheld.perm (.of_eq (append_nil _).symm))
        with ⟨s', hflush, -, hbatches, -, -, hreplayed'⟩ | ⟨⟨e, hflush⟩, hnot⟩
      · have hledger : executeSequentially cfg bank.maxTickHeight bank.ledger entries =
            .ok (registerTicks cfg s').bank.ledger := by
          rw [hreplayed'.sequential, hbatches]
          simp only [registerTicks, hreplayed'.maxTickHeight,
            registerTicks_of_noBoundary cfg s'.tickHashes hreplayed'.noBoundary]
          rfl
        have hcosts : addCosts cfg bank.costTracker (transactionsOf entries) =
            .ok s'.bank.costTracker := by
          rw [hreplayed'.costs, hbatches]
          exact addCosts_nil _
        refine .inl ⟨(registerTicks cfg s').bank, ?_, ⟨hreplayed'.lockable, ⟨_, hcosts⟩,
          ⟨_, hledger⟩⟩, hledger⟩
        exact bind_eq_ok.2 ⟨s, rfl, bind_eq_ok.2 ⟨s', hflush, rfl⟩⟩
      · refine .inr ⟨⟨e, ?_⟩, hnot⟩
        simp only [bind, Except.bind, hflush]
    · rw [hrun]
      exact .inr ⟨⟨e, rfl⟩, hnot⟩
  rcases hdone with ⟨bank', hrun, hsucceeds, hledger⟩ | ⟨⟨e, hrun⟩, hnot⟩
  · refine ⟨.inl ⟨bank', hrun⟩, ⟨fun _ => ?_, fun _ => ⟨bank', hrun⟩⟩, fun b hb => ?_⟩
    · exact ⟨hsucceeds.lockable, hsucceeds.costs, hsucceeds.executed⟩
    · cases hrun.symm.trans hb
      exact hledger
  · refine ⟨.inr ⟨e, hrun⟩, ⟨fun ⟨b, hb⟩ => ?_, fun ⟨hlock, hcosts, hexecuted⟩ => ?_⟩,
      fun b hb => ?_⟩
    · cases hrun.symm.trans hb
    · exact absurd ⟨hlock, hcosts, hexecuted⟩ hnot
    · cases hrun.symm.trans hb

/-- A transaction whose payer writes and whose other accounts are read. -/
def payingReplay (payer : Pubkey) (others : List Pubkey) (messageHash : Hash) : ReplayTransaction where
  toSanitizedTransaction := payingTransaction payer others
  messageHash := messageHash
  cost := 1
  payer_writable := by
    rw [writableKeys_eq]
    simp [payingTransaction]

/-- Each transaction counts itself and adds up its accounts. -/
def countingReplay : ReplayConfig Nat Nat Unit where
  txAccountLockLimit := 64
  threadCount := 2
  threadCount_pos := by decide
  applyCostTracker := true
  tryAdd _ _ := .ok ()
  execute _ _ accounts := .ok ⟨fun _ => accounts.sum + 1, 1⟩
  updateRecentBlockhashes _ accounts := accounts

def oneTickBank : ReplayBank Nat Nat Unit := ⟨⟨fun _ => 1, ∅, 0, 0, []⟩, 1, .empty, ()⟩

/-- The second entry does not fit into the group of the first. -/
def conflictingEntries : List ReplayEntry :=
  [.transactions [payingReplay 1 [3] 10, payingReplay 2 [3] 11],
    .transactions [payingReplay 3 [1] 12], .tick 20]

theorem conflictingEntries_sequential :
    ∃ bank', processEntries countingReplay (fun _ threads => threads.flatten) 2 oneTickBank
        conflictingEntries = .ok bank' ∧
      executeSequentially countingReplay 1 oneTickBank.ledger conflictingEntries =
        .ok bank'.ledger := by
  have hsame : SameHashSameLocks (transactionsOf conflictingEntries) := by
    simp [SameHashSameLocks, transactionsOf, conflictingEntries, payingReplay]
  obtain ⟨-, -, hledger⟩ := process_entries_sequential countingReplay
    (fun _ threads => threads.flatten) (fun _ threads => interleaves_flatten threads) 2 le_rfl
    oneTickBank (by simp [oneTickBank, AccountLocks.empty]) (by simp [oneTickBank, AccountLocks.empty])
    conflictingEntries hsame
  exact ⟨_, rfl, hledger _ rfl⟩

end Nuah.Proofs
