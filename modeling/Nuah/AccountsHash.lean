import Nuah.Primitives
import Nuah.Lib.BinarySearch

/-!
# The accounts hash

The root of a Merkle tree over the hashes of all accounts in the order of their pubkeys, taken over
the hashes as they lie in several slices. A computation that yields nothing has panicked.
-/

namespace Nuah

/-- The value of an unchecked `usize` product. -/
def wrapUsize (x : Nat) : Nat := x % 2 ^ 64

def merkleFanout : Nat := 16

structure CumulativeOffset where
  /-- The place of the source slice; both components are the same for a list of slices. -/
  index : Nat × Nat
  startOffset : Nat
deriving Repr, DecidableEq

structure CumulativeOffsets where
  cumulativeOffsets : List CumulativeOffset
  totalCount : Nat
deriving Repr, DecidableEq

namespace CumulativeOffsets

/-- One round of the closure of `new`: a slice without hashes has no offset. -/
def push (offsets : CumulativeOffsets) : Nat × Nat → CumulativeOffsets
  | (len, i) =>
    if 0 < len then
      ⟨offsets.cumulativeOffsets ++ [⟨(i, i), offsets.totalCount⟩], offsets.totalCount + len⟩
    else offsets

def new (lens : List Nat) : CumulativeOffsets := lens.zipIdx.foldl push ⟨[], 0⟩

def fromRaw {T : Type} (raw : List (List T)) : CumulativeOffsets := new (raw.map List.length)

def findIndex (offsets : CumulativeOffsets) (start : Nat) : Option Nat :=
  if offsets.cumulativeOffsets.isEmpty then none
  else
    match BinarySearch.search (fun o => compare o.startOffset start) offsets.cumulativeOffsets with
    | .ok index => some index
    | .error index => checkedSub index 1

def find (offsets : CumulativeOffsets) (start : Nat) : Option (Nat × CumulativeOffset) := do
  let index ← offsets.findIndex start
  let offset ← offsets.cumulativeOffsets[index]?
  let start ← checkedSub start offset.startOffset
  some (start, offset)

/-- `&raw[index][start..]`. -/
def extract {T : Type} (raw : List (List T)) (offset : CumulativeOffset) (start : Nat) :
    Option (List T) := do
  let data ← raw[offset.index.1]?
  if start ≤ data.length then some (data.drop start) else none

def getSlice {T : Type} (offsets : CumulativeOffsets) (raw : List (List T)) (start : Nat) :
    Option (List T) := do
  let (start, index) ← offsets.find start
  extract raw index start

end CumulativeOffsets

namespace AccountsHasher

def divCeil (x y : Nat) : Option Nat :=
  if y = 0 then none else some (if x % y ≠ 0 then x / y + 1 else x / y)

/-- The root, level by level. With a fanout of one the recursion does not end. -/
def computeMerkleRootLoop (hashv : List Hash → Hash) {T : Type} (hashes : List T) (fanout : Nat)
    (extractor : T → Hash) : Option Hash :=
  if hashes.isEmpty then some (hashv [])
  else do
    let totalHashes := hashes.length
    let chunks ← divCeil totalHashes fanout
    let result := (List.range chunks).map fun i =>
      let startIndex := i * fanout
      let endIndex := min (startIndex + fanout) totalHashes
      hashv (((hashes.take endIndex).drop startIndex).map extractor)
    match result with
    | [root] => some root
    | result =>
      if _h : result.length < hashes.length then
        computeMerkleRootLoop hashv result fanout id
      else none
termination_by hashes.length

def computeMerkleRootRecurse (hashv : List Hash → Hash) (hashes : List Hash) (fanout : Nat) :
    Option Hash :=
  computeMerkleRootLoop hashv hashes fanout id

def rootFromResult (hashv : List Hash → Hash) (fanout : Nat) : List Hash → Option Hash
  | [root] => some root
  | result => computeMerkleRootRecurse hashv result fanout

/-- The number of hashes of a chunk, the number of levels it is reduced by, and whether these are
three. -/
def calculateThreeLevelChunks (totalHashes fanout : Nat)
    (maxLevelsPerPass specificLevelCount : Option Nat) : Nat × Nat × Bool :=
  let target := wrapUsize (fanout ^ 3)
  let threshold := wrapUsize (target * fanout)
  let threeLevel := decide (3 ≤ maxLevelsPerPass.getD u64Max) && decide (threshold ≤ totalHashes)
  let threeLevel :=
    match specificLevelCount with
    | some value => threeLevel && decide (3 ≤ value)
    | none => threeLevel
  if threeLevel then (target, 3, threeLevel) else (fanout, 1, threeLevel)

structure SliceCursor (T : Type) where
  data : List T
  dataIndex : Nat

section Pass

variable {T : Type} (hashv : List Hash → Hash) (borrow : T → Hash)
  (getHashSliceStartingAtIndex : Nat → Option (List T))

/-- The next slice, starting at `i`, if the data are exhausted. -/
def refresh (i : Nat) (cursor : SliceCursor T) : Option (SliceCursor T) :=
  if cursor.data.length ≤ cursor.dataIndex then
    (getHashSliceStartingAtIndex i).map fun data => ⟨data, 0⟩
  else some cursor

/-- The body of the innermost loops: `data[data_index]`, and the step to the next place. -/
def nextItem (i : Nat) (cursor : SliceCursor T) : Option (T × SliceCursor T) := do
  let cursor ← refresh getHashSliceStartingAtIndex i cursor
  let item ← cursor.data[cursor.dataIndex]?
  some (item, ⟨cursor.data, cursor.dataIndex + 1⟩)

/-- `count` rounds of the innermost loops: the hashes from `i` on are fed to a hasher. -/
def hashItems : Nat → Nat → SliceCursor T → List Hash → Option (List Hash × SliceCursor T)
  | 0, _, cursor, hasher => some (hasher, cursor)
  | count + 1, i, cursor, hasher => do
    let (item, cursor) ← nextItem getHashSliceStartingAtIndex i cursor
    hashItems count (i + 1) cursor (hasher ++ [borrow item])

/-- The loop over `_j`: runs of `fanout` hashes, until `endIndex`. -/
def hashRuns (fanout endIndex : Nat) :
    Nat → Nat → SliceCursor T → List Hash → Option (Nat × List Hash × SliceCursor T)
  | 0, i, cursor, hasherJ => some (i, hasherJ, cursor)
  | rounds + 1, i, cursor, hasherJ => do
    let count := min (endIndex - i) fanout
    let (hasherK, cursor) ← hashItems borrow getHashSliceStartingAtIndex count i cursor []
    let i := i + count
    let hasherJ := hasherJ ++ [hashv hasherK]
    if endIndex ≤ i then some (i, hasherJ, cursor)
    else hashRuns fanout endIndex rounds i cursor hasherJ

/-- The `while` loop of a chunk of three levels. Each round takes a hash at least. -/
def hashRunsOfRuns (fanout endIndex : Nat) :
    Nat → Nat → SliceCursor T → List Hash → Option (List Hash)
  | 0, i, _, hasher => if i < endIndex then none else some hasher
  | fuel + 1, i, cursor, hasher =>
    if i < endIndex then do
      let (i, hasherJ, cursor) ←
        hashRuns hashv borrow getHashSliceStartingAtIndex fanout endIndex fanout i cursor []
      hashRunsOfRuns fanout endIndex fuel i cursor (hasher ++ [hashv hasherJ])
    else some hasher

/-- The closure of the pass: the hash of chunk `i`. -/
def hashChunk (totalHashes fanout numHashesPerChunk : Nat) (threeLevel : Bool) (data : List T)
    (i : Nat) : Option Hash := do
  let startIndex := i * numHashesPerChunk
  let endIndex := min (startIndex + numHashesPerChunk) totalHashes
  let cursor := ⟨data, startIndex⟩
  if threeLevel then
    let hasher ← hashRunsOfRuns hashv borrow getHashSliceStartingAtIndex fanout endIndex
      (endIndex - startIndex) startIndex cursor []
    some (hashv hasher)
  else
    let (hasher, _) ← hashItems borrow getHashSliceStartingAtIndex (endIndex - startIndex) startIndex
      cursor []
    some (hashv hasher)

/-- One pass over the slices: the number of levels, and what is left. -/
def merklePass (totalHashes fanout : Nat) (maxLevelsPerPass specificLevelCount : Option Nat) :
    Option (Nat × List Hash) := do
  let (numHashesPerChunk, levelsHashed, threeLevel) :=
    calculateThreeLevelChunks totalHashes fanout maxLevelsPerPass specificLevelCount
  let chunks ← divCeil totalHashes numHashesPerChunk
  let data ← getHashSliceStartingAtIndex 0
  let result ← (List.range chunks).mapM (hashChunk hashv borrow getHashSliceStartingAtIndex
    totalHashes fanout numHashesPerChunk threeLevel data)
  some (levelsHashed, result)

end Pass

/-- The root over hashes that lie in several slices, or the hashes that are left after a number of
levels. -/
def computeMerkleRootFromSlices (hashv : List Hash → Hash) {T : Type} (borrow : T → Hash)
    (totalHashes fanout : Nat) (maxLevelsPerPass : Option Nat)
    (getHashSliceStartingAtIndex : Nat → Option (List T)) (specificLevelCount : Option Nat) :
    Option (Hash × List Hash) :=
  if totalHashes = 0 then some (hashv [], [])
  else do
    let (levelsHashed, result) ← merklePass hashv borrow getHashSliceStartingAtIndex totalHashes
      fanout maxLevelsPerPass specificLevelCount
    match specificLevelCount with
    | some value =>
      let rest ← checkedSub value levelsHashed
      if rest = 0 then some (0, result)
      -- A pass hashes one level or three.
      else if _h : rest < value then
        computeMerkleRootFromSlices hashv id result.length fanout maxLevelsPerPass
          (fun start => if start ≤ result.length then some (result.drop start) else none) (some rest)
      else none
    | none => (rootFromResult hashv fanout result).map fun root => (root, [])
termination_by specificLevelCount.getD 0

def calculateHash (hashv : List Hash → Hash) (hashes : List (List Hash)) :
    Option (Hash × Nat) := do
  let cumulativeOffsets := CumulativeOffsets.fromRaw hashes
  let hashTotal := cumulativeOffsets.totalCount
  let result ← computeMerkleRootFromSlices hashv id hashTotal merkleFanout none
    (cumulativeOffsets.getSlice hashes) none
  some (result.1, hashTotal)

end AccountsHasher

end Nuah
