import Nuah.RollingBitField

/-!
# Accounts index

Where the versions of an account are stored (`accounts-db/src/accounts_index.rs`): for each slot that
wrote it, one entry. A reader sees the latest entry of its ancestors and of the roots.
-/

namespace Nuah

class IsCached (T : Type) where
  isCached : T → Bool

export IsCached (isCached)

abbrev SlotList (T : Type) := List (Slot × T)

inductive UpsertReclaim where
  | previousSlotEntryWasCached
  | populateReclaims
  | ignoreReclaims
deriving Repr, DecidableEq

/-- What the loop of `update_slot_list` changes; of the list, the part it has been through. -/
structure SlotListUpdate (T : Type) where
  slotList : SlotList T
  foundSlot : Bool
  foundOtherSlot : Bool
  addref : Bool
  reclaims : SlotList T
deriving Repr, DecidableEq

namespace SlotListUpdate

variable {T : Type}

/-- The body of the loop; `none` is a failed assertion. -/
def visit [IsCached T] (slot : Slot) (accountInfo : T) (otherSlot : Option Slot)
    (reclaim : UpsertReclaim) (cur : Slot × T) (update : SlotListUpdate T) :
    Option (SlotListUpdate T) := do
  let matchedSlot := cur.1 == slot
  if matchedSlot || some cur.1 == otherSlot then
    let matchedOtherSlot := !matchedSlot
    guard (!(update.foundSlot && matchedSlot || matchedOtherSlot && update.foundOtherSlot))
    guard (reclaim != .previousSlotEntryWasCached || isCached cur.2)
    return {
      slotList := if !(update.foundSlot || update.foundOtherSlot) then
          (slot, accountInfo) :: update.slotList
        else update.slotList
      foundSlot := update.foundSlot || matchedSlot
      foundOtherSlot := update.foundOtherSlot || matchedOtherSlot
      addref := update.addref && isCached cur.2
      reclaims := if reclaim = .populateReclaims then update.reclaims ++ [cur]
        else update.reclaims }
  else
    return { update with slotList := cur :: update.slotList }

end SlotListUpdate

/-- The slot list, the reclaims and whether the caller should add a reference. -/
def updateSlotList {T : Type} [IsCached T] (slotList : SlotList T) (slot : Slot) (accountInfo : T)
    (otherSlot : Option Slot) (reclaims : SlotList T) (reclaim : UpsertReclaim) :
    Option (SlotList T × SlotList T × Bool) := do
  let otherSlot := if otherSlot = some slot then none else otherSlot
  -- from the end of the list to its start
  let update ← slotList.foldrM (SlotListUpdate.visit slot accountInfo otherSlot reclaim)
    ⟨[], false, false, !isCached accountInfo, reclaims⟩
  let slotList := if !update.foundSlot && !update.foundOtherSlot then
      update.slotList ++ [(slot, accountInfo)]
    else update.slotList
  return (slotList, update.reclaims, update.addref)

/-- `ancestors.rs`. -/
abbrev Ancestors := RollingBitField

namespace Ancestors

def containsKey (ancestors : Ancestors) (slot : Slot) : Bool := ancestors.contains slot

def isEmpty (ancestors : Ancestors) : Bool := ancestors.len == 0

end Ancestors

structure AccountsIndex (T : Type) where
  aliveRoots : RollingBitField
  accountMaps : Pubkey → Option (SlotList T)

namespace AccountsIndex

variable {T : Type}

/-- The body of the loops of `latest_slot`. -/
def scanStep (accept : Slot → Bool) : Option Nat × Slot → (Slot × T) × Nat → Option Nat × Slot
  | (rv, currentMax), ((slot, _), i) =>
    if (rv.isNone || currentMax < slot) && accept slot then (some i, slot) else (rv, currentMax)

/-- The slice is read from its end, and an index counts from there. -/
def scanLatest (accept : Slot → Bool) (slice : SlotList T) (found : Option Nat × Slot) :
    Option Nat × Slot :=
  slice.reverse.zipIdx.foldl (scanStep accept) found

def latestSlot (index : AccountsIndex T) (ancestors : Option Ancestors) (slice : SlotList T)
    (maxRootInclusive : Option Slot) : Option Nat :=
  let found := match ancestors with
    | some ancestors =>
      if ancestors.isEmpty then (none, 0) else scanLatest ancestors.containsKey slice (none, 0)
    | none => (none, 0)
  -- without a limit it is `Slot::MAX`, above which there is no slot
  let found := scanLatest
    (fun slot => maxRootInclusive.all (slot ≤ ·) && index.aliveRoots.contains slot) slice found
  found.1.map (slice.length - 1 - ·)

/-- `get_with_and_then`, for a callback that returns what it is given. -/
def getWith (index : AccountsIndex T) (pubkey : Pubkey) (ancestors : Option Ancestors)
    (maxRoot : Option Slot) : Option (Slot × T) := do
  let slotList ← index.accountMaps pubkey
  let foundIndex ← index.latestSlot ancestors slotList maxRoot
  slotList[foundIndex]?

def newerRoot (aliveRoots : RollingBitField) (maxAllowedRootInclusive : Option Slot)
    (maxRoot slot : Slot) : Slot :=
  if maxAllowedRootInclusive.any (· < slot) then maxRoot
  else if maxRoot < slot ∧ aliveRoots.contains slot = true then slot
  else maxRoot

def getNewestRootInSlotList (aliveRoots : RollingBitField) (slice : SlotList T)
    (maxAllowedRootInclusive : Option Slot) : Slot :=
  slice.foldl (fun maxRoot (slot, _) => newerRoot aliveRoots maxAllowedRootInclusive maxRoot slot) 0

def canPurgeOlderEntries (maxCleanRootExclusive newestRootInSlotList slot : Slot) : Bool :=
  slot < maxCleanRootExclusive && slot != newestRootInSlotList

/-- The entries that are kept, and the reclaims. -/
def purgeOlderRootEntries [IsCached T] (index : AccountsIndex T) (slotList reclaims : SlotList T)
    (maxCleanRootInclusive : Option Slot) : SlotList T × SlotList T :=
  let newestRootInSlotList :=
    getNewestRootInSlotList index.aliveRoots slotList maxCleanRootInclusive
  let maxCleanRootInclusive := maxCleanRootInclusive.getD index.aliveRoots.maxInclusive
  let shouldPurge := fun (entry : Slot × T) =>
    canPurgeOlderEntries maxCleanRootInclusive newestRootInSlotList entry.1 && !isCached entry.2
  (slotList.filter (!shouldPurge ·), reclaims ++ slotList.filter shouldPurge)

/-- Whether there is no slot list any more is returned first. -/
def cleanRootedEntries [IsCached T] (index : AccountsIndex T) (pubkey : Pubkey)
    (reclaims : SlotList T) (maxCleanRootInclusive : Option Slot) :
    Bool × AccountsIndex T × SlotList T :=
  match index.accountMaps pubkey with
  | none => (true, index, reclaims)
  | some slotList =>
    let (slotList, reclaims) :=
      index.purgeOlderRootEntries slotList reclaims maxCleanRootInclusive
    let left := if slotList.isEmpty then none else some slotList
    (slotList.isEmpty,
      { index with accountMaps := Function.update index.accountMaps pubkey left }, reclaims)

end AccountsIndex

end Nuah
