import Nuah.Replay

/-!
# Confirmation of a slot

How the entries of a slot are verified and replayed, chunk by chunk as its shreds arrive
(`ledger/src/blockstore_processor.rs`, `entry/src/entry.rs`, `entry/src/poh.rs`).
-/

namespace Nuah

/-- An entry with transactions of type `ν` as they come in a shred. -/
structure Entry (ν : Type) where
  numHashes : Nat
  hash : Hash
  transactions : List ν
deriving Repr, DecidableEq

inductive BlockError where
  | incomplete
  | invalidEntryHash
  | invalidLastTick
  | tooFewTicks
  | tooManyTicks
  | invalidTickHashCount
  | trailingEntry
  | duplicateBlock
deriving Repr, DecidableEq

variable {ν α κ τ : Type}

namespace Entry

def isTick (e : Entry ν) : Bool := e.transactions.isEmpty

def tickCount (entries : List (Entry ν)) : Nat := (entries.filter isTick).length

/-- The loop of `verify_tick_hash_count` and the check after it: the count at its end, and
whether all checks held. -/
def countTickHashes (hashesPerTick : Nat) : Nat → List (Entry ν) → Nat × Bool
  | tickHashCount, [] => (tickHashCount, decide (tickHashCount < hashesPerTick))
  | tickHashCount, e :: entries =>
    let count := saturatingAddU64 tickHashCount e.numHashes
    if e.isTick then
      if count ≠ hashesPerTick then (count, false) else countTickHashes hashesPerTick 0 entries
    else countTickHashes hashesPerTick count entries

/-- `verify_tick_hash_count`; hashing is disabled when `hashes_per_tick` is 0. -/
def verifyTickHashCount (entries : List (Entry ν)) (tickHashCount hashesPerTick : Nat) :
    Nat × Bool :=
  if hashesPerTick = 0 then (tickHashCount, true)
  else countTickHashes hashesPerTick tickHashCount entries

end Entry

/-- Returns the hash count that is carried over to the next entries. -/
def verifyTicks (tickHeight maxTickHeight : Nat) (bankHashesPerTick : Option Nat)
    (entries : List (Entry ν)) (slotFull : Bool) (tickHashCount : Nat) : Except BlockError Nat :=
  let nextBankTickHeight := tickHeight + Entry.tickCount entries
  if maxTickHeight < nextBankTickHeight then .error .tooManyTicks
  else if nextBankTickHeight < maxTickHeight ∧ slotFull then .error .tooFewTicks
  else if nextBankTickHeight = maxTickHeight ∧
      (entries.getLast?.map fun e => !e.isTick).getD false then .error .trailingEntry
  else if nextBankTickHeight = maxTickHeight ∧ !slotFull then .error .invalidLastTick
  else
    match Entry.verifyTickHashCount entries tickHashCount (bankHashesPerTick.getD 0) with
    | (count, true) => .ok count
    | (_, false) => .error .invalidTickHashCount

/-- The tick verification of successive calls for a slot, the last one of which completes it:
the tick height and the hash count after them. -/
def verifyTicksOfCalls (maxTickHeight : Nat) (bankHashesPerTick : Option Nat) :
    Nat × Nat → List (List (Entry ν)) → Except BlockError (Nat × Nat)
  | s, [] => .ok s
  | (tickHeight, tickHashCount), entries :: calls => do
    let count ← verifyTicks tickHeight maxTickHeight bankHashesPerTick entries calls.isEmpty
      tickHashCount
    verifyTicksOfCalls maxTickHeight bankHashesPerTick
      (tickHeight + Entry.tickCount entries, count) calls

/-- `LOW_POWER_MODE`. -/
def lowPowerMode : Nat := u64Max

/-- The hash functions: of one hash, of a hash with a mixed in one, and of the signatures of
transactions. -/
structure PohHasher (ν : Type) where
  hash : Hash → Hash
  hashv : Hash → Hash → Hash
  hashTransactions : List ν → Hash

structure Poh where
  hash : Hash
  numHashes : Nat
  hashesPerTick : Nat
  remainingHashes : Nat

namespace Poh

/-- `Poh::new` without a number of hashes per tick. -/
def new (hash : Hash) : Poh := ⟨hash, 0, lowPowerMode, lowPowerMode⟩

def hashTimes (H : PohHasher ν) (poh : Poh) (maxNumHashes : Nat) : Poh :=
  let n := min (poh.remainingHashes - 1) maxNumHashes
  { poh with
    hash := H.hash^[n] poh.hash
    numHashes := poh.numHashes + n
    remainingHashes := poh.remainingHashes - n }

/-- The hash of the entry, or nothing when a tick is due first. -/
def record (H : PohHasher ν) (poh : Poh) (mixin : Hash) : Option Hash :=
  if poh.remainingHashes = 1 then none else some (H.hashv poh.hash mixin)

def tick (H : PohHasher ν) (poh : Poh) : Option Hash :=
  if poh.hashesPerTick ≠ lowPowerMode ∧ poh.remainingHashes - 1 ≠ 0 then none
  else some (H.hash poh.hash)

end Poh

def unwrapPanicking {β : Type} : Option β → Panicking β
  | some b => .ok b
  | none => .error .panic

def nextHash (H : PohHasher ν) (startHash : Hash) (numHashes : Nat) (transactions : List ν) :
    Panicking Hash :=
  if numHashes = 0 ∧ transactions.isEmpty then .ok startHash
  else
    let poh := (Poh.new startHash).hashTimes H (numHashes - 1)
    if transactions.isEmpty then unwrapPanicking (poh.tick H)
    else unwrapPanicking (poh.record H (H.hashTransactions transactions))

namespace Entry

def verify (H : PohHasher ν) (e : Entry ν) (startHash : Hash) : Panicking Bool := do
  let refHash ← nextHash H startHash e.numHashes e.transactions
  .ok (decide (e.hash = refHash))

/-- `verify_cpu_generic`. -/
def verifyAll (H : PohHasher ν) : Hash → List (Entry ν) → Panicking Bool
  | _, [] => .ok true
  | startHash, e :: entries => do
    if ← e.verify H startHash then verifyAll H e.hash entries else .ok false

end Entry

structure ConfirmationProgress where
  lastEntry : Hash
  tickHashCount : Nat
  numShreds : Nat
  numEntries : Nat
  numTxs : Nat
deriving Repr, DecidableEq

def ConfirmationProgress.new (lastEntry : Hash) : ConfirmationProgress := ⟨lastEntry, 0, 0, 0, 0⟩

/-- What a call ends with besides a value. -/
inductive ConfirmFault where
  | invalidBlock (e : BlockError)
  | replay (f : ReplayFault)
deriving Repr, DecidableEq

abbrev ConfirmResult := Except ConfirmFault

def ConfirmResult.ofReplay {β : Type} : ReplayResult β → ConfirmResult β
  | .ok b => .ok b
  | .error f => .error (.replay f)

def ConfirmResult.ofBlock {β : Type} : Except BlockError β → ConfirmResult β
  | .ok b => .ok b
  | .error e => .error (.invalidBlock e)

structure ConfirmConfig (ν α κ τ : Type) extends ReplayConfig α κ τ where
  hasher : PohHasher ν
  hashesPerTick : Option Nat
  /-- `Bank::verify_transaction`. -/
  verifyTransaction : Ledger α κ → ν → TransactionResult ReplayTransaction

/-- What the blockstore loads for a call: the entries of the data sets that became complete. -/
structure Chunk (ν : Type) where
  entries : List (Entry ν)
  numShreds : Nat
  slotFull : Bool

/-- The entry for `process_entries`, its transactions verified. -/
def verifyEntryTransactions (cfg : ConfirmConfig ν α κ τ) (l : Ledger α κ) (e : Entry ν) :
    TransactionResult ReplayEntry := do
  if e.isTick then .ok (.tick e.hash)
  else
    let txs ← e.transactions.mapM (cfg.verifyTransaction l)
    .ok (.transactions txs)

/-- The checks on ticks and on the proof of history; returns the hash count to carry over. -/
def verifyChunk (cfg : ConfirmConfig ν α κ τ) (skipVerification : Bool) (bank : ReplayBank α κ τ)
    (progress : ConfirmationProgress) (chunk : Chunk ν) : ConfirmResult Nat := do
  if skipVerification then .ok progress.tickHashCount
  else
    let count ← ConfirmResult.ofBlock (verifyTicks bank.ledger.tickHeight bank.maxTickHeight
      cfg.hashesPerTick chunk.entries chunk.slotFull progress.tickHashCount)
    let verified ← ConfirmResult.ofReplay (ReplayResult.ofPanicking
      (Entry.verifyAll cfg.hasher progress.lastEntry chunk.entries))
    if verified then .ok count else .error (.invalidBlock .invalidEntryHash)

def confirmSlotEntries [Add κ] (cfg : ConfirmConfig ν α κ τ) (schedule : Schedule) (fuel : Nat)
    (skipVerification : Bool) (bank : ReplayBank α κ τ) (progress : ConfirmationProgress)
    (chunk : Chunk ν) : ConfirmResult (ReplayBank α κ τ × ConfirmationProgress) := do
  let count ← verifyChunk cfg skipVerification bank progress chunk
  let entries ← ConfirmResult.ofReplay (ReplayResult.ofResult
    (chunk.entries.mapM (verifyEntryTransactions cfg bank.ledger)))
  let bank ← ConfirmResult.ofReplay
    (processEntries cfg.toReplayConfig schedule fuel bank entries)
  .ok (bank, {
    lastEntry := (chunk.entries.getLast?.map Entry.hash).getD progress.lastEntry
    tickHashCount := count
    numShreds := progress.numShreds + chunk.numShreds
    numEntries := progress.numEntries + chunk.entries.length
    numTxs := progress.numTxs + (chunk.entries.map fun e => e.transactions.length).sum })

/-- Successive calls for the chunks of a slot, each with its own schedule. -/
def confirmChunks [Add κ] (cfg : ConfirmConfig ν α κ τ) (fuel : Nat) (bank : ReplayBank α κ τ)
    (progress : ConfirmationProgress) (chunks : List (Chunk ν × Schedule)) :
    ConfirmResult (ReplayBank α κ τ × ConfirmationProgress) :=
  chunks.foldlM (fun s c => confirmSlotEntries cfg c.2 fuel false s.1 s.2 c.1) (bank, progress)

end Nuah
