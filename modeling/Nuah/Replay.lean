import Nuah.AccountLocks
import Nuah.Lib.Interleaving

/-!
# Replay of entries

How the entries of a block are replayed on a bank without an installed scheduler
(`process_entries` in `ledger/src/blockstore_processor.rs`). What a transaction does to its
accounts, and adds to counters, is a parameter.
-/

namespace Nuah

open Interleaving

structure ReplayTransaction extends SanitizedTransaction where
  messageHash : Hash
  /-- `CostModel::calculate_cost(tx).sum()`. -/
  cost : Nat
  /-- The fee payer is writable. -/
  payer_writable : toSanitizedTransaction.writableKeys ≠ []

inductive ReplayEntry where
  | tick (hash : Hash)
  | transactions (txs : List ReplayTransaction)

/-- What entries change on a bank. -/
structure Ledger (α κ : Type) where
  accounts : Pubkey → α
  /-- The message hashes of the transactions in the status cache. -/
  statuses : Finset Hash
  counters : κ
  tickHeight : Nat
  /-- The registered blockhashes, the last one first. -/
  blockhashes : List Hash

structure ReplayBank (α κ τ : Type) where
  ledger : Ledger α κ
  maxTickHeight : Nat
  locks : AccountLocks
  costTracker : τ

/-- The accounts a transaction leaves in place of its writable ones, and what it adds to the
counters. -/
structure TransactionEffect (α κ : Type) where
  written : Pubkey → α
  counted : κ

structure ReplayConfig (α κ τ : Type) where
  txAccountLockLimit : Nat
  /-- `get_thread_count()`. -/
  threadCount : Nat
  threadCount_pos : 0 < threadCount
  /-- Whether `apply_cost_tracker_during_replay` is active. -/
  applyCostTracker : Bool
  /-- `CostTracker::try_add`. -/
  tryAdd : τ → ReplayTransaction → TransactionResult τ
  /-- What a transaction does, by the accounts of its keys and the registered blockhashes. -/
  execute : ReplayTransaction → List Hash → List α → TransactionResult (TransactionEffect α κ)
  /-- What the registration of a blockhash does to the accounts of sysvars. -/
  updateRecentBlockhashes : List Hash → (Pubkey → α) → Pubkey → α

/-- What a call can end with besides a value. Running out of fuel stands for a loop that
does not end. -/
inductive ReplayFault where
  | err (e : TransactionError)
  | panic
  | outOfFuel
deriving Repr, DecidableEq

abbrev ReplayResult := Except ReplayFault

def ReplayResult.ofPanicking {β : Type} : Panicking β → ReplayResult β
  | .ok b => .ok b
  | .error _ => .error .panic

def ReplayResult.ofResult {β : Type} : TransactionResult β → ReplayResult β
  | .ok b => .ok b
  | .error e => .error (.err e)

variable {α κ τ : Type}

namespace Ledger

def store (l : Ledger α κ) (tx : ReplayTransaction) (written : Pubkey → α) : Ledger α κ :=
  { l with accounts := fun k => if k ∈ tx.writableKeys then written k else l.accounts k }

def record [Add κ] (l : Ledger α κ) (tx : ReplayTransaction) (counted : κ) : Ledger α κ :=
  { l with statuses := insert tx.messageHash l.statuses, counters := l.counters + counted }

def registerTick (cfg : ReplayConfig α κ τ) (maxTickHeight : Nat) (l : Ledger α κ) (hash : Hash) :
    Ledger α κ :=
  if l.tickHeight + 1 = maxTickHeight then
    { l with
      blockhashes := hash :: l.blockhashes
      accounts := cfg.updateRecentBlockhashes (hash :: l.blockhashes) l.accounts
      tickHeight := l.tickHeight + 1 }
  else { l with tickHeight := l.tickHeight + 1 }

def registerTicks (cfg : ReplayConfig α κ τ) (maxTickHeight : Nat) (l : Ledger α κ)
    (hashes : List Hash) : Ledger α κ :=
  hashes.foldl (registerTick cfg maxTickHeight) l

end Ledger

/-- What a thread does for the transaction at a position of the group. -/
inductive ReplayEvent where
  | check (i : Nat)
  | load (i : Nat)
  | store (i : Nat)
  | record (i : Nat)
deriving Repr, DecidableEq

/-- The shared ledger, and by position what the threads have found out about a transaction:
whether it was processed before, and what it does. -/
structure GroupState (α κ : Type) where
  ledger : Ledger α κ
  processed : Nat → Option Bool
  outcome : Nat → Option (TransactionResult (TransactionEffect α κ))

def GroupState.start (ledger : Ledger α κ) : GroupState α κ :=
  ⟨ledger, fun _ => none, fun _ => none⟩

def loadOutcome (cfg : ReplayConfig α κ τ) (l : Ledger α κ) (tx : ReplayTransaction)
    (processed : Bool) : TransactionResult (TransactionEffect α κ) :=
  if processed then .error .alreadyProcessed
  else cfg.execute tx l.blockhashes (tx.accountKeys.map l.accounts)

def runEvent [Add κ] (cfg : ReplayConfig α κ τ) (txs : List ReplayTransaction) (s : GroupState α κ) :
    ReplayEvent → GroupState α κ
  | .check i =>
    match txs[i]? with
    | some tx => { s with
        processed := Function.update s.processed i
          (some (decide (tx.messageHash ∈ s.ledger.statuses))) }
    | none => s
  | .load i =>
    match txs[i]?, s.processed i with
    | some tx, some processed => { s with
        outcome := Function.update s.outcome i (some (loadOutcome cfg s.ledger tx processed)) }
    | _, _ => s
  | .store i =>
    match txs[i]?, s.outcome i with
    | some tx, some (.ok effect) => { s with ledger := s.ledger.store tx effect.written }
    | _, _ => s
  | .record i =>
    match txs[i]?, s.outcome i with
    | some tx, some (.ok effect) => { s with ledger := s.ledger.record tx effect.counted }
    | _, _ => s

/-- `execute_batch`: all transactions of the batch are checked, then loaded and executed,
then stored, then recorded. -/
def batchProgram (positions : List Nat) : List ReplayEvent :=
  positions.map .check ++ positions.map .load ++ positions.map .store ++ positions.map .record

/-- The positions in the group of the transactions of each batch. -/
def positionsFrom (start : Nat) : List (List ReplayTransaction) → List (List Nat)
  | [] => []
  | batch :: batches =>
    List.range' start batch.length :: positionsFrom (start + batch.length) batches

/-- In which order the events of the batches happen, in each call of
`execute_batches_internal`. -/
abbrev Schedule := Nat → List (List ReplayEvent) → List ReplayEvent

def firstError (outcomes : List (Option (TransactionResult (TransactionEffect α κ)))) :
    TransactionResult Unit :=
  outcomes.forM fun outcome =>
    match outcome with
    | some (.error e) => .error e
    | _ => .ok ()

def executeBatchesInternal [Add κ] (cfg : ReplayConfig α κ τ) (schedule : Schedule) (call : Nat)
    (ledger : Ledger α κ) (batches : List (List ReplayTransaction)) :
    ReplayResult (Ledger α κ) := do
  if batches.isEmpty then .error .panic
  else
    let txs := batches.flatten
    let events := schedule call ((positionsFrom 0 batches).map batchProgram)
    let s := events.foldl (runEvent cfg txs) (GroupState.start ledger)
    ReplayResult.ofResult (firstError ((List.range txs.length).map s.outcome))
    .ok s.ledger

def saturatingMulU64 (a b : Nat) : Nat := min (a * b) u64Max

/-- The slices of the transactions; one ends where its cost reaches the target. -/
def sliceByCost (targetBatchCost : Nat) :
    List ReplayTransaction → Nat → List ReplayTransaction → List (List ReplayTransaction)
  | [], _, _ => []
  | tx :: txs, batchCost, slice =>
    if targetBatchCost ≤ saturatingAddU64 batchCost tx.cost ∨ txs = [] then
      (slice ++ [tx]) :: sliceByCost targetBatchCost txs 0 []
    else sliceByCost targetBatchCost txs (saturatingAddU64 batchCost tx.cost) (slice ++ [tx])

def rebatch (threadCount : Nat) (batches : List (List ReplayTransaction)) :
    List (List ReplayTransaction) :=
  let txs := batches.flatten
  let minimalTxCost := txs.foldl (fun cost tx => min cost tx.cost) u64Max
  let totalCost := txs.foldl (fun cost tx => saturatingAddU64 cost tx.cost) 0
  if saturatingMulU64 threadCount minimalTxCost < totalCost then
    sliceByCost (totalCost / threadCount) txs 0 []
  else batches

def addCosts (cfg : ReplayConfig α κ τ) (tracker : τ) (txs : List ReplayTransaction) :
    TransactionResult τ :=
  if cfg.applyCostTracker then txs.foldlM cfg.tryAdd tracker else .ok tracker

def rebatchAndExecuteBatches [Add κ] (cfg : ReplayConfig α κ τ) (schedule : Schedule) (call : Nat)
    (bank : ReplayBank α κ τ) (batches : List (List ReplayTransaction)) :
    ReplayResult (ReplayBank α κ τ) :=
  if batches.isEmpty then .ok bank
  else do
    let tracker ← ReplayResult.ofResult (addCosts cfg bank.costTracker batches.flatten)
    let ledger ← executeBatchesInternal cfg schedule call bank.ledger
      (rebatch cfg.threadCount batches)
    .ok { bank with ledger := ledger, costTracker := tracker }

/-- The group of batches that hold their locks, and the ticks that wait for it. -/
structure ReplayState (α κ τ : Type) where
  bank : ReplayBank α κ τ
  batches : List (List ReplayTransaction)
  tickHashes : List Hash
  /-- How many groups were executed. -/
  calls : Nat

def lockedBatch (txs : List ReplayTransaction) (results : List (TransactionResult Unit)) :
    List (SanitizedTransaction × TransactionResult Unit) :=
  (txs.map (·.toSanitizedTransaction)).zip results

/-- Drops batches all of whose transactions hold their locks. -/
def unlockBatches (locks : AccountLocks) (batches : List (List ReplayTransaction)) :
    ReplayResult AccountLocks :=
  batches.foldlM (fun l txs => ReplayResult.ofPanicking
    (l.unlockAccounts (lockedBatch txs (txs.map fun _ => .ok ())))) locks

/-- `process_batches` and the clearing of the group after it. -/
def flushGroup [Add κ] (cfg : ReplayConfig α κ τ) (schedule : Schedule) (s : ReplayState α κ τ) :
    ReplayResult (ReplayState α κ τ) := do
  let bank ← rebatchAndExecuteBatches cfg schedule s.calls s.bank s.batches
  let locks ← unlockBatches bank.locks s.batches
  .ok { s with bank := { bank with locks := locks }, batches := [], calls := s.calls + 1 }

def registerTicks (cfg : ReplayConfig α κ τ) (s : ReplayState α κ τ) : ReplayState α κ τ :=
  let ledger := s.bank.ledger.registerTicks cfg s.bank.maxTickHeight s.tickHashes
  { s with bank := { s.bank with ledger := ledger }, tickHashes := [] }

/-- The loop that locks an entry: if it does not fit into the group, the group is executed
and the entry tried again. The locks that the entry did get are released after the group's. -/
def lockEntry [Add κ] (cfg : ReplayConfig α κ τ) (schedule : Schedule) (txs : List ReplayTransaction) :
    Nat → ReplayState α κ τ → ReplayResult (ReplayState α κ τ)
  | 0, _ => .error .outOfFuel
  | fuel + 1, s => do
    let (locks, results) ← ReplayResult.ofPanicking
      (s.bank.locks.lockAccounts (txs.map (·.toSanitizedTransaction)) cfg.txAccountLockLimit)
    match results.forM id with
    | .ok _ => .ok { s with bank := { s.bank with locks := locks }, batches := s.batches ++ [txs] }
    | .error e =>
      if s.batches.isEmpty then .error (.err e)
      else
        let s ← flushGroup cfg schedule { s with bank := { s.bank with locks := locks } }
        let locks ← ReplayResult.ofPanicking (s.bank.locks.unlockAccounts (lockedBatch txs results))
        lockEntry cfg schedule txs fuel { s with bank := { s.bank with locks := locks } }

def processEntry [Add κ] (cfg : ReplayConfig α κ τ) (schedule : Schedule) (fuel : Nat)
    (s : ReplayState α κ τ) : ReplayEntry → ReplayResult (ReplayState α κ τ)
  | .tick hash =>
    let s := { s with tickHashes := s.tickHashes ++ [hash] }
    if s.bank.ledger.tickHeight + s.tickHashes.length = s.bank.maxTickHeight then do
      let s ← flushGroup cfg schedule s
      .ok (registerTicks cfg s)
    else .ok s
  | .transactions txs => lockEntry cfg schedule txs fuel s

def processEntries [Add κ] (cfg : ReplayConfig α κ τ) (schedule : Schedule) (fuel : Nat)
    (bank : ReplayBank α κ τ) (entries : List ReplayEntry) : ReplayResult (ReplayBank α κ τ) := do
  let s ← entries.foldlM (processEntry cfg schedule fuel) ⟨bank, [], [], 0⟩
  let s ← flushGroup cfg schedule s
  .ok (registerTicks cfg s).bank

def executeTransaction [Add κ] (cfg : ReplayConfig α κ τ) (l : Ledger α κ) (tx : ReplayTransaction) :
    TransactionResult (Ledger α κ) := do
  let effect ← loadOutcome cfg l tx (decide (tx.messageHash ∈ l.statuses))
  .ok ((l.store tx effect.written).record tx effect.counted)

def executeSequentially [Add κ] (cfg : ReplayConfig α κ τ) (maxTickHeight : Nat) (l : Ledger α κ)
    (entries : List ReplayEntry) : TransactionResult (Ledger α κ) :=
  entries.foldlM (fun l entry =>
    match entry with
    | .tick hash => .ok (l.registerTick cfg maxTickHeight hash)
    | .transactions txs => txs.foldlM (executeTransaction cfg) l) l

end Nuah
