import Nuah.Primitives
import Nuah.Lib.OrderedMaps

/-!
# Thread-aware account locks

The scheduler of the banking stage locks the accounts of a transaction for one worker
thread. An account may be locked again for the thread that already holds it. Threads are
the bits of a 64-bit word.
-/

namespace Nuah

open Std (TreeMap)

def maxThreads : Nat := 64

abbrev ThreadId := Fin maxThreads

structure ThreadSet where
  bits : BitVec maxThreads
deriving Repr, DecidableEq

namespace ThreadSet

def asFlag (threadId : Nat) : BitVec maxThreads := BitVec.ofNat _ 1 <<< threadId

protected def none : ThreadSet := ⟨.ofNat maxThreads 0⟩

def any (numThreads : Nat) : ThreadSet :=
  if numThreads = maxThreads then ⟨.allOnes maxThreads⟩
  else ⟨asFlag numThreads - .ofNat maxThreads 1⟩

def only (threadId : ThreadId) : ThreadSet := ⟨asFlag threadId⟩

def bitand (s s' : ThreadSet) : ThreadSet := ⟨s.bits &&& s'.bits⟩

def isEmpty (s : ThreadSet) : Bool := s == .none

def contains (s : ThreadSet) (threadId : ThreadId) : Bool :=
  s.bits &&& asFlag threadId != .ofNat maxThreads 0

def insert (s : ThreadSet) (threadId : ThreadId) : ThreadSet := ⟨s.bits ||| asFlag threadId⟩

def remove (s : ThreadSet) (threadId : ThreadId) : ThreadSet := ⟨s.bits &&& ~~~asFlag threadId⟩

def containedThreads (s : ThreadSet) : List ThreadId := (List.finRange maxThreads).filter s.contains

-- `count_ones`
def numThreads (s : ThreadSet) : Nat := s.containedThreads.length

-- of a word that is not zero `trailing_zeros` is the first bit that is set
def onlyOneContained (s : ThreadSet) : Option ThreadId :=
  if s.numThreads = 1 then s.containedThreads.head? else none

end ThreadSet

structure AccountWriteLocks where
  threadId : ThreadId
  lockCount : Nat

structure AccountReadLocks where
  threadSet : ThreadSet
  lockCounts : ThreadId → Nat

/-- The lock table. `new` asserts what the two proofs say. -/
structure ThreadAwareAccountLocks where
  numThreads : Nat
  numThreads_pos : 0 < numThreads
  numThreads_le : numThreads ≤ maxThreads
  writeLocks : TreeMap Pubkey AccountWriteLocks := ∅
  readLocks : TreeMap Pubkey AccountReadLocks := ∅

/-- `+= 1` on a `LockCount`, which is a `u32`. An overflow is a panic. -/
def incrementLockCount (n : Nat) : Option Nat := if n < u32Max then some (n + 1) else none

namespace ThreadAwareAccountLocks

/-- Here and below `none` is a panic. -/
def writeLockAccount (threadId : ThreadId) (l : ThreadAwareAccountLocks) (account : Pubkey) :
    Option ThreadAwareAccountLocks := do
  let w ← match l.writeLocks[account]? with
    | some w =>
      if w.threadId = threadId then (incrementLockCount w.lockCount).map (⟨threadId, ·⟩) else none
    | none => some ⟨threadId, 1⟩
  guard (l.readLocks[account]?.all fun r => r.threadSet = .only threadId)
  return { l with writeLocks := l.writeLocks.insert account w }

def writeUnlockAccount (threadId : ThreadId) (l : ThreadAwareAccountLocks) (account : Pubkey) :
    Option ThreadAwareAccountLocks := do
  let w ← l.writeLocks[account]?
  guard (w.threadId = threadId)
  let lockCount ← checkedSub w.lockCount 1
  return { l with
    writeLocks :=
      if lockCount = 0 then l.writeLocks.erase account
      else l.writeLocks.insert account { w with lockCount } }

def readLockAccount (threadId : ThreadId) (l : ThreadAwareAccountLocks) (account : Pubkey) :
    Option ThreadAwareAccountLocks := do
  let r ← match l.readLocks[account]? with
    | some r => (incrementLockCount (r.lockCounts threadId)).map fun count =>
      ⟨r.threadSet.insert threadId, Function.update r.lockCounts threadId count⟩
    | none => some ⟨.only threadId, Function.update 0 threadId 1⟩
  guard (l.writeLocks[account]?.all fun w => w.threadId = threadId)
  return { l with readLocks := l.readLocks.insert account r }

def readUnlockAccount (threadId : ThreadId) (l : ThreadAwareAccountLocks) (account : Pubkey) :
    Option ThreadAwareAccountLocks := do
  let r ← l.readLocks[account]?
  guard (r.threadSet.contains threadId)
  let count ← checkedSub (r.lockCounts threadId) 1
  let lockCounts := Function.update r.lockCounts threadId count
  let threadSet := if count = 0 then r.threadSet.remove threadId else r.threadSet
  return { l with
    readLocks :=
      if count = 0 ∧ threadSet.isEmpty then l.readLocks.erase account
      else l.readLocks.insert account ⟨threadSet, lockCounts⟩ }

def lockAccounts (l : ThreadAwareAccountLocks) (writeAccountLocks readAccountLocks : List Pubkey)
    (threadId : ThreadId) : Option ThreadAwareAccountLocks := do
  guard (threadId < l.numThreads)
  let l ← writeAccountLocks.foldlM (writeLockAccount threadId) l
  readAccountLocks.foldlM (readLockAccount threadId) l

def unlockAccounts (l : ThreadAwareAccountLocks)
    (writeAccountLocks readAccountLocks : List Pubkey) (threadId : ThreadId) :
    Option ThreadAwareAccountLocks := do
  let l ← writeAccountLocks.foldlM (writeUnlockAccount threadId) l
  readAccountLocks.foldlM (readUnlockAccount threadId) l

def schedulableThreads (l : ThreadAwareAccountLocks) (write : Bool) (account : Pubkey) :
    Option ThreadSet :=
  match l.writeLocks[account]?, l.readLocks[account]? with
  | none, none => some (.any l.numThreads)
  | none, some r =>
    if write then some (r.threadSet.onlyOneContained.elim .none .only)
    else some (.any l.numThreads)
  | some w, none => some (.only w.threadId)
  | some w, some r =>
    if r.threadSet.onlyOneContained = some w.threadId then some r.threadSet else none

/-- One of the two loops of `accounts_schedulable_threads`, which end early with `none` inside. -/
def narrowThreads (threads : Pubkey → Option ThreadSet) :
    List Pubkey → ThreadSet → Option (Option ThreadSet)
  | [], s => some (some s)
  | account :: accounts, s => do
    let s := s.bitand (← threads account)
    if s.isEmpty then some none else narrowThreads threads accounts s

def accountsSchedulableThreads (l : ThreadAwareAccountLocks)
    (writeAccountLocks readAccountLocks : List Pubkey) : Option (Option ThreadSet) := do
  match ← narrowThreads (l.schedulableThreads true) writeAccountLocks (.any l.numThreads) with
  | none => return none
  | some s => narrowThreads (l.schedulableThreads false) readAccountLocks s

def tryLockAccounts (l : ThreadAwareAccountLocks)
    (writeAccountLocks readAccountLocks : List Pubkey) (allowedThreads : ThreadSet)
    (threadSelector : ThreadSet → ThreadId) :
    Option (Option ThreadId × ThreadAwareAccountLocks) := do
  match ← l.accountsSchedulableThreads writeAccountLocks readAccountLocks with
  | none => return (none, l)
  | some s =>
    let schedulable := s.bitand allowedThreads
    if schedulable.isEmpty then return (none, l)
    let threadId := threadSelector schedulable
    return (some threadId, ← l.lockAccounts writeAccountLocks readAccountLocks threadId)

end ThreadAwareAccountLocks

end Nuah
