import Nuah.Primitives

/-!
# Account locks

`AccountLocks` and the locking functions of `accounts-db/src/accounts.rs`. A batch of
transactions is locked in one critical section, so a call is one step here. Assertions are
panics.
-/

namespace Nuah

open Std (TreeMap TreeSet)

/-- `TransactionError`, without the index and the instruction error that come with an error
of an instruction. -/
inductive TransactionError where
  | accountInUse
  | accountLoadedTwice
  | accountNotFound
  | programAccountNotFound
  | insufficientFundsForFee
  | invalidAccountForFee
  | alreadyProcessed
  | blockhashNotFound
  | instructionError
  | invalidProgramForExecution
  | wouldExceedMaxBlockCostLimit
  | wouldExceedMaxAccountCostLimit
  | wouldExceedAccountDataBlockLimit
  | tooManyAccountLocks
  | wouldExceedMaxVoteCostLimit
  | wouldExceedAccountDataTotalLimit
  | insufficientFundsForRent
  | maxLoadedAccountsDataSizeExceeded
  | invalidLoadedAccountsDataSizeLimit
  | programExecutionTemporarilyRestricted
  | unbalancedTransaction
deriving Repr, DecidableEq

abbrev TransactionResult := Except TransactionError

/-- A computation that returns no error but may panic. -/
abbrev Panicking := Except (Fault Empty)

structure SanitizedTransaction where
  accountKeys : List Pubkey
  isWritable : Nat → Bool

structure TransactionAccountLocks where
  writable : List Pubkey
  readonly : List Pubkey
deriving Repr, DecidableEq

namespace SanitizedTransaction

def getAccountLocksUnchecked (tx : SanitizedTransaction) : TransactionAccountLocks :=
  let (writable, readonly) := tx.accountKeys.zipIdx.partition (fun p => tx.isWritable p.2)
  ⟨writable.map Prod.fst, readonly.map Prod.fst⟩

def writableKeys (tx : SanitizedTransaction) : List Pubkey := tx.getAccountLocksUnchecked.writable

def readonlyKeys (tx : SanitizedTransaction) : List Pubkey := tx.getAccountLocksUnchecked.readonly

def validateAccountLocks (tx : SanitizedTransaction) (txAccountLockLimit : Nat) :
    TransactionResult Unit :=
  if ¬ tx.accountKeys.Nodup then .error .accountLoadedTwice
  else if txAccountLockLimit < tx.accountKeys.length then .error .tooManyAccountLocks
  else .ok ()

def getAccountLocks (tx : SanitizedTransaction) (txAccountLockLimit : Nat) :
    TransactionResult TransactionAccountLocks := do
  tx.validateAccountLocks txAccountLockLimit
  .ok tx.getAccountLocksUnchecked

end SanitizedTransaction

structure AccountLocks where
  writeLocks : TreeSet Pubkey
  readonlyLocks : TreeMap Pubkey Nat

namespace AccountLocks

def empty : AccountLocks := ⟨∅, ∅⟩

def isLockedReadonly (locks : AccountLocks) (key : Pubkey) : Bool :=
  match locks.readonlyLocks[key]? with
  | some count => decide (0 < count)
  | none => false

def isLockedWrite (locks : AccountLocks) (key : Pubkey) : Bool := locks.writeLocks.contains key

def insertNewReadonly (locks : AccountLocks) (key : Pubkey) : Panicking AccountLocks := do
  assertOrPanic (!locks.readonlyLocks.contains key)
  .ok { locks with readonlyLocks := locks.readonlyLocks.insert key 1 }

def lockReadonly (locks : AccountLocks) (key : Pubkey) : Option AccountLocks :=
  locks.readonlyLocks[key]?.map fun count =>
    { locks with readonlyLocks := locks.readonlyLocks.insert key (count + 1) }

def unlockReadonly (locks : AccountLocks) (key : Pubkey) : Panicking AccountLocks :=
  match locks.readonlyLocks[key]? with
  | some 0 => .error .panic
  | some 1 => .ok { locks with readonlyLocks := locks.readonlyLocks.erase key }
  | some (count + 2) =>
    .ok { locks with readonlyLocks := locks.readonlyLocks.insert key (count + 1) }
  | none => .error .panic

def insertWrite (locks : AccountLocks) (key : Pubkey) : AccountLocks :=
  { locks with writeLocks := locks.writeLocks.insert key }

def unlockWrite (locks : AccountLocks) (key : Pubkey) : Panicking AccountLocks := do
  assertOrPanic (locks.writeLocks.contains key)
  .ok { locks with writeLocks := locks.writeLocks.erase key }

/-- Takes a read lock on a key: a new one if the key has no readers. -/
def addReader (locks : AccountLocks) (key : Pubkey) : Panicking AccountLocks :=
  match locks.lockReadonly key with
  | some locks' => .ok locks'
  | none => locks.insertNewReadonly key

/-- Whether one of the keys is locked in a way that excludes the lock wanted on it. -/
def inUse (locks : AccountLocks) (keys : TransactionAccountLocks) : Bool :=
  keys.writable.any (fun k => locks.isLockedWrite k || locks.isLockedReadonly k) ||
    keys.readonly.any locks.isLockedWrite

/-- `lock_account`: the checks come before the first change, so an error leaves the locks
as they were. -/
def lockAccount (locks : AccountLocks) (keys : TransactionAccountLocks) :
    Panicking (AccountLocks × TransactionResult Unit) :=
  if locks.inUse keys then .ok (locks, .error .accountInUse)
  else do
    let locked ← keys.readonly.foldlM addReader (keys.writable.foldl insertWrite locks)
    .ok (locked, .ok ())

def unlockAccount (locks : AccountLocks) (keys : TransactionAccountLocks) :
    Panicking AccountLocks := do
  let unlocked ← keys.writable.foldlM unlockWrite locks
  keys.readonly.foldlM unlockReadonly unlocked

def lockAccountsInner (locks : AccountLocks) :
    List (TransactionResult TransactionAccountLocks) →
      Panicking (AccountLocks × List (TransactionResult Unit))
  | [] => .ok (locks, [])
  | .error err :: rest => do
    let (locked, results) ← lockAccountsInner locks rest
    .ok (locked, .error err :: results)
  | .ok keys :: rest => do
    let (locked₁, result) ← locks.lockAccount keys
    let (locked, results) ← lockAccountsInner locked₁ rest
    .ok (locked, result :: results)

def lockAccounts (locks : AccountLocks) (txs : List SanitizedTransaction)
    (txAccountLockLimit : Nat) : Panicking (AccountLocks × List (TransactionResult Unit)) :=
  locks.lockAccountsInner (txs.map (·.getAccountLocks txAccountLockLimit))

/-- The locks of a transaction that came with a result: none after an error. -/
def locksWithResult (txAccountLockLimit : Nat) (tx : SanitizedTransaction) :
    TransactionResult Unit → TransactionResult TransactionAccountLocks
  | .ok () => tx.getAccountLocks txAccountLockLimit
  | .error err => .error err

def lockAccountsWithResults (locks : AccountLocks) (txs : List SanitizedTransaction)
    (results : List (TransactionResult Unit)) (txAccountLockLimit : Nat) :
    Panicking (AccountLocks × List (TransactionResult Unit)) :=
  locks.lockAccountsInner (List.zipWith (locksWithResult txAccountLockLimit) txs results)

def grantedOf (batch : List (SanitizedTransaction × TransactionResult Unit)) :
    List SanitizedTransaction :=
  (batch.filter (fun p => p.2.isOk)).map Prod.fst

def unlockAccounts (locks : AccountLocks)
    (txsAndResults : List (SanitizedTransaction × TransactionResult Unit)) :
    Panicking AccountLocks :=
  (grantedOf txsAndResults).foldlM (fun l tx => l.unlockAccount tx.getAccountLocksUnchecked) locks

end AccountLocks

/-- The locks, and the batches that are not unlocked yet, with the results of locking them. -/
structure LockState where
  locks : AccountLocks
  outstanding : List (List (SanitizedTransaction × TransactionResult Unit))

def LockState.initial : LockState := ⟨.empty, []⟩

def LockState.granted (s : LockState) : List SanitizedTransaction :=
  s.outstanding.flatMap AccountLocks.grantedOf

inductive LockOperation where
  | lockAccounts (txs : List SanitizedTransaction) (txAccountLockLimit : Nat)
  | lockAccountsWithResults (txs : List SanitizedTransaction)
      (results : List (TransactionResult Unit)) (txAccountLockLimit : Nat)
  /-- Unlocks the batch at a position of the outstanding ones. -/
  | unlockAccounts (batch : Nat)

def LockOperation.run (s : LockState) : LockOperation → Panicking LockState
  | .lockAccounts txs limit => do
    let (locks, results) ← s.locks.lockAccounts txs limit
    .ok ⟨locks, txs.zip results :: s.outstanding⟩
  | .lockAccountsWithResults txs given limit => do
    let (locks, results) ← s.locks.lockAccountsWithResults txs given limit
    .ok ⟨locks, txs.zip results :: s.outstanding⟩
  | .unlockAccounts batch =>
    match s.outstanding[batch]? with
    | some txsAndResults => do
      let locks ← s.locks.unlockAccounts txsAndResults
      .ok ⟨locks, s.outstanding.eraseIdx batch⟩
    | none => .ok s

end Nuah
