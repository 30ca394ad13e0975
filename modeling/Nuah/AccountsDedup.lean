import Nuah.AccountsHash

/-!
# The newest version of every account

The entries of the slot groups are sorted by pubkey, later groups holding newer versions.
They are merged bin by bin: a working set holds the place of the lowest entry of each group.
A computation that yields nothing has panicked.
-/

namespace Nuah

structure CalculateHashIntermediate where
  hash : Hash
  lamports : Nat
  pubkey : Pubkey
deriving Repr, DecidableEq

inductive ZeroLamportAccounts where
  | excluded
  | included
deriving Repr, DecidableEq

structure PubkeyBinCalculator24 where
  shiftBits : Nat

namespace PubkeyBinCalculator24

def new (bins : Nat) : Option PubkeyBinCalculator24 :=
  if 0 < bins ∧ bins ≤ 2 ^ 24 ∧ 2 ^ bins.log2 = bins then some ⟨24 - bins.log2⟩ else none

def binFromPubkey (calculator : PubkeyBinCalculator24) (pubkey : Pubkey) : Nat :=
  pubkey / 2 ^ 232 / 2 ^ calculator.shiftBits

end PubkeyBinCalculator24

/-- A file of hashes, with its capacity in bytes. There is no writer before the first hash. -/
structure AccountHashesFile where
  writer : Option (List Hash)
  capacity : Nat
deriving Repr, DecidableEq

namespace AccountHashesFile

def sizeOfHash : Nat := 32

def hashes (file : AccountHashesFile) : List Hash := file.writer.getD []

def count (file : AccountHashesFile) : Nat := file.hashes.length

def openWriter (file : AccountHashesFile) : Option (List Hash) :=
  match file.writer with
  | some hashes => some hashes
  | none => if 0 < file.capacity then some [] else none

/-- The map of the file ends at its capacity. -/
def write (file : AccountHashesFile) (hash : Hash) : Option AccountHashesFile := do
  let hashes ← file.openWriter
  if hashes.length * sizeOfHash + sizeOfHash ≤ file.capacity then
    some { file with writer := some (hashes ++ [hash]) }
  else none

end AccountHashesFile

structure SlotGroupPointer where
  slotGroupIndex : Nat
  offset : Nat
deriving Repr, DecidableEq

structure ItemLocation where
  key : Pubkey
  pointer : SlotGroupPointer
deriving Repr, DecidableEq

namespace AccountsHasher

def checkedCastForCapitalization (balance : Nat) : Option Nat :=
  if balance ≤ u64Max then some balance else none

section Bin

variable (sortedDataByPubkey : List (List CalculateHashIntermediate)) (bin : Nat)
  (binner : Pubkey → Nat)

/-- `sorted_data_by_pubkey[slot_group_index][offset].pubkey`. -/
def pubkeyAt (pointer : SlotGroupPointer) : Option Pubkey := do
  let divisionData ← sortedDataByPubkey[pointer.slotGroupIndex]?
  let item ← divisionData[pointer.offset]?
  some item.pubkey

/-- The loop of `get_item` over the entries from `index` on: where it stops, and the location of
the next pubkey. -/
def skipKey (key : Pubkey) (slotGroupIndex : Nat) :
    List CalculateHashIntermediate → Nat → Nat × Option ItemLocation
  | [], index => (index, none)
  | item :: rest, index =>
    if item.pubkey = key then skipKey key slotGroupIndex rest (index + 1)
    else if bin < binner item.pubkey then (index, none)
    else (index, some ⟨item.pubkey, ⟨slotGroupIndex, index⟩⟩)

def getItem (itemLoc : ItemLocation) :
    Option (CalculateHashIntermediate × Option ItemLocation) := do
  let divisionData ← sortedDataByPubkey[itemLoc.pointer.slotGroupIndex]?
  let (index, next) := skipKey bin binner itemLoc.key itemLoc.pointer.slotGroupIndex
    (divisionData.drop (itemLoc.pointer.offset + 1)) (itemLoc.pointer.offset + 1)
  let item ← divisionData[index - 1]?
  some (item, next)

def searchFirstInBin (hashData : List CalculateHashIntermediate) : Option Nat :=
  if bin = 0 then some 0
  else
    match BinarySearch.search (fun data => compare (1 + 2 * binner data.pubkey) (bin * 2)) hashData with
    -- "it is impossible to find a matching bin"
    | .ok _ => none
    | .error index => some index

def binarySearchForFirstPubkeyInBin (hashData : List CalculateHashIntermediate) :
    Option (Option Nat) := do
  let potentialIndex ← searchFirstInBin bin binner hashData
  some (hashData[potentialIndex]?.bind fun potentialData =>
    if binner potentialData.pubkey = bin then some potentialIndex else none)

def findFirstPubkeyInBin (bins : Nat) (hashData : List CalculateHashIntermediate) :
    Option (Option Nat) :=
  if hashData.isEmpty then some none
  else do
    let i ← checkedDiv (hashData.length * bin) bins
    let estimate ← hashData[i]?
    if bin ≤ binner estimate.pubkey then
      binarySearchForFirstPubkeyInBin bin binner (hashData.take (i + 1))
    else do
      let result ← binarySearchForFirstPubkeyInBin bin binner (hashData.drop (i + 1))
      some (result.map fun index => i + 1 + index)

def isBelowMin (key : Pubkey) (workingSet : List SlotGroupPointer) : Option Bool :=
  match workingSet.getLast? with
  | none => some false
  | some pointer => (pubkeyAt sortedDataByPubkey pointer).map fun currentMinKey =>
      decide (key < currentMinKey)

def searchWorkingSet (key : Pubkey) (workingSet : List SlotGroupPointer) :
    Option (Except Nat Nat) := do
  let keys ← workingSet.mapM (pubkeyAt sortedDataByPubkey)
  some (BinarySearch.search (fun prob => compare key prob) keys)

/-- The loop of `add_next_item`. Each round moves on in one of the groups. -/
def addNextItemLoop :
    Nat → Option ItemLocation → List SlotGroupPointer → Option (List SlotGroupPointer)
  | _, none, workingSet => some workingSet
  | 0, some _, _ => none
  | fuel + 1, some ⟨key, pointer⟩, workingSet => do
    if ← isBelowMin sortedDataByPubkey key workingSet then
      some (workingSet ++ [pointer])
    else
      match ← searchWorkingSet sortedDataByPubkey key workingSet with
      | .error index => some (workingSet.insertIdx index pointer)
      | .ok index =>
        let found ← workingSet[index]?
        if pointer.slotGroupIndex < found.slotGroupIndex then
          let (_, newNext) ← getItem sortedDataByPubkey bin binner ⟨key, pointer⟩
          addNextItemLoop fuel newNext workingSet
        else
          let (_, newNext) ← getItem sortedDataByPubkey bin binner ⟨key, found⟩
          addNextItemLoop fuel newNext (workingSet.set index pointer)

def addNextItem (next : Option ItemLocation) (workingSet : List SlotGroupPointer) :
    Option (List SlotGroupPointer) :=
  addNextItemLoop sortedDataByPubkey bin binner (sortedDataByPubkey.flatten.length + 1) next workingSet

/-- The closure of `initialize_dedup_working_set`, with the working set and the sum so far. -/
def initializeGroup (bins : Nat) (state : List SlotGroupPointer × Nat)
    (group : List CalculateHashIntermediate × Nat) : Option (List SlotGroupPointer × Nat) := do
  let (hashData, i) := group
  match ← findFirstPubkeyInBin bin binner bins hashData with
  | none => some state
  | some firstPubkeyInBin =>
    let item ← hashData[firstPubkeyInBin]?
    let workingSet ← addNextItem sortedDataByPubkey bin binner
      (some ⟨item.pubkey, ⟨i, firstPubkeyInBin⟩⟩) state.1
    let more := (hashData.drop (firstPubkeyInBin + 1)).takeWhile fun data => binner data.pubkey = bin
    some (workingSet, state.2 + (1 + more.length))

/-- The working set, and the number of entries in the bin. -/
def initializeDedupWorkingSet (bins : Nat) : Option (List SlotGroupPointer × Nat) :=
  sortedDataByPubkey.zipIdx.reverse.foldlM
    (initializeGroup sortedDataByPubkey bin binner bins) ([], 0)

variable (zeroLamportAccounts : ZeroLamportAccounts) (hashOfPubkey : Pubkey → Hash)

/-- The lamports and the hash of an entry are taken over. -/
def addItem (item : CalculateHashIntermediate) (hashes : AccountHashesFile) (overallSum : Nat) :
    Option (AccountHashesFile × Nat) :=
  if item.lamports ≠ 0 then do
    let overallSum ← checkedCastForCapitalization (item.lamports + overallSum)
    let hashes ← hashes.write item.hash
    some (hashes, overallSum)
  else if zeroLamportAccounts = .included then do
    let hashes ← hashes.write (hashOfPubkey item.pubkey)
    some (hashes, overallSum)
  else some (hashes, overallSum)

/-- The loop of `de_dup_accounts_in_parallel`. Each round takes a pubkey. -/
def dedupLoop :
    Nat → List SlotGroupPointer → AccountHashesFile → Nat → Option (AccountHashesFile × Nat)
  | 0, workingSet, hashes, overallSum =>
    if workingSet.isEmpty then some (hashes, overallSum) else none
  | fuel + 1, workingSet, hashes, overallSum =>
    match workingSet.getLast? with
    | none => some (hashes, overallSum)
    | some pointer => do
      let key ← pubkeyAt sortedDataByPubkey pointer
      let (item, next) ← getItem sortedDataByPubkey bin binner ⟨key, pointer⟩
      let (hashes, overallSum) ← addItem zeroLamportAccounts hashOfPubkey item hashes overallSum
      let workingSet ← addNextItem sortedDataByPubkey bin binner next workingSet.dropLast
      dedupLoop fuel workingSet hashes overallSum

/-- `de_dup_accounts_in_parallel` with its bin calculator. -/
def deDupBin (bins : Nat) : Option (AccountHashesFile × Nat) := do
  let (workingSet, maxInclusiveNumPubkeys) ←
    initializeDedupWorkingSet sortedDataByPubkey bin binner bins
  dedupLoop sortedDataByPubkey bin binner zeroLamportAccounts hashOfPubkey
    sortedDataByPubkey.flatten.length workingSet
    ⟨none, maxInclusiveNumPubkeys * AccountHashesFile.sizeOfHash⟩ 0

end Bin

section Bins

variable (zeroLamportAccounts : ZeroLamportAccounts) (hashOfPubkey : Pubkey → Hash)

def deDupAccountsInParallel (sortedDataByPubkey : List (List CalculateHashIntermediate))
    (pubkeyBin bins : Nat) : Option (AccountHashesFile × Nat) := do
  let binner ← PubkeyBinCalculator24.new bins
  deDupBin sortedDataByPubkey pubkeyBin binner.binFromPubkey zeroLamportAccounts hashOfPubkey bins

/-- The closure of `de_dup_accounts`: a bin adds its file and its lamports. -/
def addBin (sortedDataByPubkey : List (List CalculateHashIntermediate)) (maxBin : Nat)
    (accum : List AccountHashesFile × Nat) (bin : Nat) : Option (List AccountHashesFile × Nat) := do
  let (hashesFile, lamportsBin) ← deDupAccountsInParallel zeroLamportAccounts hashOfPubkey
    sortedDataByPubkey bin maxBin
  let lamportsSum ← checkedAddU64 accum.2 lamportsBin
  some (accum.1 ++ [hashesFile], lamportsSum)

/-- The files of all bins in their order, and the lamports of all of them. -/
def deDupAccounts (sortedDataByPubkey : List (List CalculateHashIntermediate)) (maxBin : Nat) :
    Option (List AccountHashesFile × Nat) :=
  (List.range maxBin).foldlM
    (addBin zeroLamportAccounts hashOfPubkey sortedDataByPubkey maxBin) ([], 0)

def pubkeyBinsForCalculatingHashes : Nat := 65536

/-- The hash of all accounts and their lamports. The slices are those of the files with a writer. -/
def restOfHashCalculation (hashv : List Hash → Hash)
    (sortedDataByPubkey : List (List CalculateHashIntermediate)) : Option (Hash × Nat) := do
  let (hashes, totalLamports) ← deDupAccounts zeroLamportAccounts hashOfPubkey sortedDataByPubkey
    pubkeyBinsForCalculatingHashes
  let readers := hashes.filterMap AccountHashesFile.writer
  let cumulative := CumulativeOffsets.fromRaw readers
  let (hash, _) ← computeMerkleRootFromSlices hashv id cumulative.totalCount merkleFanout none
    (cumulative.getSlice readers) none
  some (hash, totalLamports)

end Bins

end AccountsHasher

end Nuah
