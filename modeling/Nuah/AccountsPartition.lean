import Nuah.Primitives

/-!
# Partitions of the accounts

The accounts that rent is collected from in a step of a cycle
(`accounts-db/src/accounts_partition.rs`). A pubkey is a number of 256 bits, and its prefix the first
64 of them. What would panic yields nothing.
-/

namespace Nuah

namespace AccountsPartition

structure Partition where
  startIndex : Nat
  endIndex : Nat
  partitionCount : Nat
deriving Repr, DecidableEq

def partitionWidth (partitionCount : Nat) : Nat :=
  (u64Max - partitionCount + 1) / partitionCount + 1

/-- The first and the last pubkey with a prefix. -/
def firstPubkey (keyPrefix : Nat) : Pubkey := keyPrefix * 2 ^ 192
def lastPubkey (keyPrefix : Nat) : Pubkey := keyPrefix * 2 ^ 192 + (2 ^ 192 - 1)

/-- The first and the last pubkey of a partition. -/
def pubkeyRangeFromPartition (partition : Partition) : Option (Pubkey × Pubkey) :=
  let ⟨startIndex, endIndex, partitionCount⟩ := partition
  if startIndex ≤ endIndex ∧ startIndex < partitionCount ∧ endIndex < partitionCount then
    if partitionCount = 1 then some (0, 2 ^ 256 - 1)
    else
      let width := partitionWidth partitionCount
      let startKeyPrefix :=
        if startIndex = 0 ∧ endIndex = 0 then 0
        else if startIndex + 1 = partitionCount then u64Max
        else (startIndex + 1) * width
      let endKeyPrefix :=
        if endIndex + 1 = partitionCount then u64Max else (endIndex + 1) * width - 1
      -- a pair across epochs that stands for no accounts
      if startIndex ≠ 0 ∧ startIndex = endIndex then
        if endKeyPrefix = u64Max then some (lastPubkey endKeyPrefix, lastPubkey endKeyPrefix)
        else some (firstPubkey startKeyPrefix, firstPubkey startKeyPrefix)
      else some (firstPubkey startKeyPrefix, lastPubkey endKeyPrefix)
  else none

def prefixFromPubkey (pubkey : Pubkey) : Nat := pubkey / 2 ^ 192

def partitionFromPubkey (pubkey : Pubkey) (partitionCount : Nat) : Option Nat :=
  if partitionCount = 0 then none
  else if partitionCount = 1 then some 0
  else
    let width := partitionWidth partitionCount
    let keyPrefix := prefixFromPubkey pubkey
    if keyPrefix = 0 then some 0
    else if keyPrefix = u64Max then some (partitionCount - 1)
    else
      let result := (keyPrefix + 1) / width
      some (if (keyPrefix + 1) % width = 0 then result - 1 else result)

def getPartitionEndIndexes (partition : Partition) : List Nat :=
  if partition.startIndex = partition.endIndex ∧ partition.startIndex = 0 then [0]
  else (List.range' partition.startIndex (partition.endIndex - partition.startIndex)).map (· + 1)

/-- The accounts that may pay rent, by the end index of their partition. -/
structure RentPayingAccountsByPartition where
  accounts : List (List Pubkey)
  partitionCount : Nat
deriving Repr, DecidableEq

namespace RentPayingAccountsByPartition

def new (partitionCount : Nat) : RentPayingAccountsByPartition :=
  ⟨List.replicate (partitionCount + 1) [], partitionCount⟩

variable (r : RentPayingAccountsByPartition)

def addAccount (pubkey : Pubkey) : Option RentPayingAccountsByPartition := do
  let endIndex ← partitionFromPubkey pubkey r.partitionCount
  let list ← r.accounts[endIndex]?
  some { r with accounts := r.accounts.set endIndex (list.insert pubkey) }

def getPubkeysInPartitionIndex (endIndex : Nat) : List Pubkey := r.accounts[endIndex]?.getD []

end RentPayingAccountsByPartition

end AccountsPartition

end Nuah
