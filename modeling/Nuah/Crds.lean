import Nuah.Primitives
import Nuah.Lib.ByteStrings
import Nuah.Lib.IndexMaps

/-!
# Cluster-replicated data store

The table of gossip values and its indices (`gossip/src/crds.rs`, `crds_shards.rs`,
`crds_value.rs`). The parts of a value that no function here reads are its `content`. A call that
panics returns `none`.
-/

namespace Nuah

open Std (TreeMap)
open IndexMaps (IndexMap IndexSet)

/-- What most kinds of data have in common. `origin` is `from` in the source. -/
structure Stamped (β : Type) where
  origin : Pubkey
  wallclock : Nat
  content : β
deriving DecidableEq, Repr

structure LegacyContactInfo (β : Type) where
  pubkey : Pubkey
  wallclock : Nat
  shredVersion : Nat
  content : β
deriving DecidableEq, Repr

structure NodeInstance where
  origin : Pubkey
  wallclock : Nat
  /-- When the instance was created. -/
  timestamp : Nat
  /-- A random number drawn when the instance is created. -/
  token : Nat
deriving DecidableEq, Repr

inductive CrdsData (β : Type) where
  | legacyContactInfo (node : LegacyContactInfo β)
  | vote (ix : Nat) (vote : Stamped β)
  | lowestSlot (ix : Nat) (lowest : Stamped β)
  | legacySnapshotHashes (hashes : Stamped β)
  | accountsHashes (hashes : Stamped β)
  | epochSlots (ix : Nat) (slots : Stamped β)
  | legacyVersion (version : Stamped β)
  | version (version : Stamped β)
  | nodeInstance (node : NodeInstance)
  | duplicateShred (ix : Nat) (shred : Stamped β)
  | snapshotHashes (hashes : Stamped β)
  | contactInfo (node : Stamped β)
  | restartLastVotedForkSlots (slots : Stamped β)
  | restartHeaviestFork (fork : Stamped β)
deriving DecidableEq, Repr

structure CrdsValue (β : Type) where
  signature : Nat
  data : CrdsData β
deriving DecidableEq, Repr

inductive CrdsValueLabel where
  | legacyContactInfo (pubkey : Pubkey)
  | vote (ix : Nat) (pubkey : Pubkey)
  | lowestSlot (pubkey : Pubkey)
  | legacySnapshotHashes (pubkey : Pubkey)
  | epochSlots (ix : Nat) (pubkey : Pubkey)
  | accountsHashes (pubkey : Pubkey)
  | legacyVersion (pubkey : Pubkey)
  | version (pubkey : Pubkey)
  | nodeInstance (pubkey : Pubkey)
  | duplicateShred (ix : Nat) (pubkey : Pubkey)
  | snapshotHashes (pubkey : Pubkey)
  | contactInfo (pubkey : Pubkey)
  | restartLastVotedForkSlots (pubkey : Pubkey)
  | restartHeaviestFork (pubkey : Pubkey)
deriving DecidableEq, Repr

variable {β : Type}

namespace CrdsValue

def wallclock (value : CrdsValue β) : Nat :=
  match value.data with
  | .legacyContactInfo contactInfo => contactInfo.wallclock
  | .vote _ vote => vote.wallclock
  | .lowestSlot _ obj => obj.wallclock
  | .legacySnapshotHashes hash => hash.wallclock
  | .accountsHashes hash => hash.wallclock
  | .epochSlots _ p => p.wallclock
  | .legacyVersion version => version.wallclock
  | .version version => version.wallclock
  | .nodeInstance node => node.wallclock
  | .duplicateShred _ shred => shred.wallclock
  | .snapshotHashes hash => hash.wallclock
  | .contactInfo node => node.wallclock
  | .restartLastVotedForkSlots slots => slots.wallclock
  | .restartHeaviestFork fork => fork.wallclock

def pubkey (value : CrdsValue β) : Pubkey :=
  match value.data with
  | .legacyContactInfo contactInfo => contactInfo.pubkey
  | .vote _ vote => vote.origin
  | .lowestSlot _ slots => slots.origin
  | .legacySnapshotHashes hash => hash.origin
  | .accountsHashes hash => hash.origin
  | .epochSlots _ p => p.origin
  | .legacyVersion version => version.origin
  | .version version => version.origin
  | .nodeInstance node => node.origin
  | .duplicateShred _ shred => shred.origin
  | .snapshotHashes hash => hash.origin
  | .contactInfo node => node.origin
  | .restartLastVotedForkSlots slots => slots.origin
  | .restartHeaviestFork fork => fork.origin

def label (value : CrdsValue β) : CrdsValueLabel :=
  match value.data with
  | .legacyContactInfo _ => .legacyContactInfo value.pubkey
  | .vote ix _ => .vote ix value.pubkey
  | .lowestSlot _ _ => .lowestSlot value.pubkey
  | .legacySnapshotHashes _ => .legacySnapshotHashes value.pubkey
  | .accountsHashes _ => .accountsHashes value.pubkey
  | .epochSlots ix _ => .epochSlots ix value.pubkey
  | .legacyVersion _ => .legacyVersion value.pubkey
  | .version _ => .version value.pubkey
  | .nodeInstance node => .nodeInstance node.origin
  | .duplicateShred ix shred => .duplicateShred ix shred.origin
  | .snapshotHashes _ => .snapshotHashes value.pubkey
  | .contactInfo node => .contactInfo node.origin
  | .restartLastVotedForkSlots _ => .restartLastVotedForkSlots value.pubkey
  | .restartHeaviestFork _ => .restartHeaviestFork value.pubkey

end CrdsValue

/-- Nothing when the tokens are the same or the other value is not an instance of the same node.
Otherwise the more recent start wins, and on a tie the greater token. -/
def NodeInstance.overrides (node : NodeInstance) (other : CrdsValue β) : Option Bool :=
  match other.data with
  | .nodeInstance other =>
    if node.token = other.token ∨ node.origin ≠ other.origin then none
    else
      match compare node.timestamp other.timestamp with
      | .lt => some false
      | .gt => some true
      | .eq => some (decide (other.token < node.token))
  | _ => none

inductive GossipRoute where
  | localMessage
  | pullRequest
  | pullResponse
  | pushMessage (origin : Pubkey)
deriving DecidableEq, Repr

inductive CrdsError where
  | duplicatePush (numDups : Nat)
  | insertFailed
  | unknownStakes
deriving DecidableEq, Repr

structure VersionedCrdsValue (β : Type) where
  /-- Ordinal index indicating insert order. -/
  ordinal : Nat
  value : CrdsValue β
  localTimestamp : Nat
  valueHash : Hash
  numPushRecv : Option Nat
deriving DecidableEq, Repr

def VersionedCrdsValue.new (hashOf : CrdsValue β → Hash) (value : CrdsValue β) (cursor : Nat)
    (localTimestamp : Nat) (route : GossipRoute) : VersionedCrdsValue β where
  ordinal := cursor
  value := value
  localTimestamp := localTimestamp
  valueHash := hashOf value
  numPushRecv :=
    match route with
    | .localMessage => none
    | .pullRequest => none
    | .pullResponse => some 0
    | .pushMessage _ => some 1

/-- The special case of node instances in `overrides`. -/
def CrdsValue.instanceOverrides (value other : CrdsValue β) : Option Bool :=
  match value.data with
  | .nodeInstance node => node.overrides other
  | _ => none

/-- Whether the first value updates the second one. Both should have the same label. -/
def overrides (hashOf : CrdsValue β → Hash) (value : CrdsValue β) (other : VersionedCrdsValue β) :
    Option Bool :=
  if value.label = other.value.label then
    match value.instanceOverrides other.value with
    | some out => some out
    | none =>
      match compare value.wallclock other.value.wallclock with
      | .lt => some false
      | .gt => some true
      | .eq => some (decide (other.valueHash < hashOf value))
  else none

def hashAsU64 (hash : Hash) : Nat :=
  ByteStrings.ofLeBytes ((List.range 8).map fun i => UInt8.ofNat (hash / 256 ^ (31 - i)))

structure CrdsShards where
  /-- From the indices of the values with these first bits to their hash. -/
  shards : List (IndexMap Nat Nat)
  shardBits : Nat

namespace CrdsShards

def new (shardBits : Nat) : CrdsShards := ⟨List.replicate (2 ^ shardBits) .empty, shardBits⟩

def shardIndex (shards : CrdsShards) (hash : Nat) : Nat :=
  if 64 - shards.shardBits < 64 then hash / 2 ^ (64 - shards.shardBits) else 0

/-- `shard_mut`, with what is done to the shard. -/
def modifyShard (shards : CrdsShards) (hash : Nat) (f : IndexMap Nat Nat → IndexMap Nat Nat) :
    Option CrdsShards := do
  let shard ← shards.shards[shards.shardIndex hash]?
  some { shards with shards := shards.shards.set (shards.shardIndex hash) (f shard) }

def insert (shards : CrdsShards) (index : Nat) (value : VersionedCrdsValue β) : Option CrdsShards :=
  shards.modifyShard (hashAsU64 value.valueHash) (·.insert index (hashAsU64 value.valueHash))

def remove (shards : CrdsShards) (index : Nat) (value : VersionedCrdsValue β) : Option CrdsShards :=
  shards.modifyShard (hashAsU64 value.valueHash) (·.swapRemove index)

end CrdsShards

def crdsShardsBits : Nat := 12

structure Crds (β : Type) where
  table : IndexMap CrdsValueLabel (VersionedCrdsValue β)
  /-- Next insert ordinal location. -/
  cursor : Nat
  shards : CrdsShards
  nodes : IndexSet Nat
  votes : TreeMap Nat Nat
  epochSlots : TreeMap Nat Nat
  duplicateShreds : TreeMap Nat Nat
  /-- Indices of all values associated with a node. -/
  records : TreeMap Pubkey (IndexSet Nat)
  /-- Indices of all entries keyed by insert order. -/
  entries : TreeMap Nat Nat
  /-- Hash of recently purged values, with a timestamp. -/
  purged : List (Hash × Nat)
  shredVersions : TreeMap Pubkey Nat

/-- The order in which a hash map lists its keys, and what `select_nth_unstable` makes of a list:
everything before the position is at most, everything after it at least the element there. -/
structure KeyOrder where
  iterate : List Pubkey → List Pubkey
  selectNth : Nat → List (Nat × Pubkey) → List (Nat × Pubkey)
  iterate_perm : ∀ l, (iterate l).Perm l
  selectNth_perm : ∀ n l, (selectNth n l).Perm l
  selectNth_le : ∀ n l i j (a b : Nat × Pubkey), (selectNth n l)[i]? = some a →
    (selectNth n l)[j]? = some b → i ≤ n → n ≤ j → toLex a ≤ toLex b

namespace Crds

/-- `Crds::default`. -/
def default : Crds β where
  table := .empty
  cursor := 0
  shards := .new crdsShardsBits
  nodes := .empty
  votes := ∅
  epochSlots := ∅
  duplicateShreds := ∅
  records := ∅
  entries := ∅
  purged := []
  shredVersions := ∅

/-- `Cursor::consume`. -/
def consume (crds : Crds β) (ordinal : Nat) : Crds β :=
  { crds with cursor := max crds.cursor (ordinal + 1) }

/-- All values of an index from the cursor on, and the cursor when they are consumed. -/
def readFrom (crds : Crds β) (index : TreeMap Nat Nat) (cursor : Nat) :
    Option (List (VersionedCrdsValue β) × Nat) := do
  let range := index.toList.filter (cursor ≤ ·.1)
  let values ← range.mapM fun (_, i) => crds.table.values[i]?
  some (values, range.foldl (fun cursor (ordinal, _) => max cursor (ordinal + 1)) cursor)

def getVotes (crds : Crds β) := crds.readFrom crds.votes

def getEpochSlots (crds : Crds β) := crds.readFrom crds.epochSlots

def getDuplicateShreds (crds : Crds β) := crds.readFrom crds.duplicateShreds

def getEntries (crds : Crds β) := crds.readFrom crds.entries

def upserts (hashOf : CrdsValue β → Hash) (crds : Crds β) (value : CrdsValue β) : Option Bool :=
  match crds.table.get value.label with
  | some other => overrides hashOf value other
  | none => some true

/-- Enters a new value into the index of its kind. -/
def trackKind (crds : Crds β) (entryIndex : Nat) (value : VersionedCrdsValue β) : Crds β :=
  match value.value.data with
  | .legacyContactInfo node =>
    { crds with
      nodes := crds.nodes.insert entryIndex ()
      shredVersions := crds.shredVersions.insert value.value.pubkey node.shredVersion }
  | .vote _ _ => { crds with votes := crds.votes.insert value.ordinal entryIndex }
  | .epochSlots _ _ => { crds with epochSlots := crds.epochSlots.insert value.ordinal entryIndex }
  | .duplicateShred _ _ =>
    { crds with duplicateShreds := crds.duplicateShreds.insert value.ordinal entryIndex }
  | _ => crds

def retrackKind (crds : Crds β) (entryIndex : Nat) (old value : VersionedCrdsValue β) :
    Option (Crds β) :=
  match value.value.data with
  | .legacyContactInfo node =>
    match old.value.data with
    | .legacyContactInfo _ =>
      some { crds with
        shredVersions := crds.shredVersions.insert value.value.pubkey node.shredVersion }
    -- a failed debug assertion
    | _ => none
  | .vote _ _ =>
    some { crds with votes := (crds.votes.erase old.ordinal).insert value.ordinal entryIndex }
  | .epochSlots _ _ =>
    some { crds with
      epochSlots := (crds.epochSlots.erase old.ordinal).insert value.ordinal entryIndex }
  | .duplicateShred _ _ =>
    some { crds with
      duplicateShreds := (crds.duplicateShreds.erase old.ordinal).insert value.ordinal entryIndex }
  | _ => some crds

def insertVacant (crds : Crds β) (value : VersionedCrdsValue β) : Option (Crds β) := do
  let entryIndex := crds.table.len
  let shards ← crds.shards.insert entryIndex value
  let crds := { crds with shards := shards }.trackKind entryIndex value
  let record := (crds.records[value.value.pubkey]?).getD .empty
  let crds := { crds with
    entries := crds.entries.insert value.ordinal entryIndex
    records := crds.records.insert value.value.pubkey (record.insert entryIndex ()) }
  let crds := crds.consume value.ordinal
  some { crds with table := crds.table.insert value.value.label value }

def insertOver (crds : Crds β) (entryIndex : Nat) (old value : VersionedCrdsValue β) (now : Nat) :
    Option (Crds β) := do
  let shards ← crds.shards.remove entryIndex old
  let shards ← shards.insert entryIndex value
  let crds ← { crds with shards := shards }.retrackKind entryIndex old value
  let crds := { crds with
    entries := (crds.entries.erase old.ordinal).insert value.ordinal entryIndex }
  -- a debug assertion
  guard (old.value.pubkey = value.value.pubkey)
  let crds := crds.consume value.ordinal
  some { crds with
    purged := crds.purged ++ [(old.valueHash, now)]
    table := crds.table.insert value.value.label value }

def insertFail (crds : Crds β) (entryIndex : Nat) (old value : VersionedCrdsValue β) (now : Nat)
    (route : GossipRoute) : Crds β × CrdsError :=
  if old.valueHash ≠ value.valueHash then
    ({ crds with purged := crds.purged ++ [(value.valueHash, now)] }, .insertFailed)
  else
    match route with
    | .pushMessage _ =>
      let numPushDups := old.numPushRecv.getD 0
      ({ crds with table := crds.table.modifyIndex entryIndex fun entry =>
          { entry with numPushRecv := some (min (numPushDups + 1) u8Max) } },
        .duplicatePush numPushDups)
    | _ => (crds, .insertFailed)

def insert (hashOf : CrdsValue β → Hash) (crds : Crds β) (value : CrdsValue β) (now : Nat)
    (route : GossipRoute) : Option (Crds β × Except CrdsError Unit) := do
  let value := VersionedCrdsValue.new hashOf value crds.cursor now route
  match crds.table.getIndexOf value.value.label with
  | none =>
    let crds ← crds.insertVacant value
    some (crds, .ok ())
  | some entryIndex =>
    let old ← crds.table.values[entryIndex]?
    match ← overrides hashOf value.value old with
    | true =>
      let crds ← crds.insertOver entryIndex old value now
      some (crds, .ok ())
    | false =>
      let (crds, error) := crds.insertFail entryIndex old value now route
      some (crds, .error error)

def untrackKind (crds : Crds β) (index : Nat) (value : VersionedCrdsValue β) : Crds β :=
  match value.value.data with
  | .legacyContactInfo _ => { crds with nodes := crds.nodes.swapRemove index }
  | .vote _ _ => { crds with votes := crds.votes.erase value.ordinal }
  | .epochSlots _ _ => { crds with epochSlots := crds.epochSlots.erase value.ordinal }
  | .duplicateShred _ _ => { crds with duplicateShreds := crds.duplicateShreds.erase value.ordinal }
  | _ => crds

def moveKind (crds : Crds β) (size index : Nat) (value : VersionedCrdsValue β) : Crds β :=
  match value.value.data with
  | .legacyContactInfo _ => { crds with nodes := (crds.nodes.swapRemove size).insert index () }
  | .vote _ _ => { crds with votes := crds.votes.insert value.ordinal index }
  | .epochSlots _ _ => { crds with epochSlots := crds.epochSlots.insert value.ordinal index }
  | .duplicateShred _ _ =>
    { crds with duplicateShreds := crds.duplicateShreds.insert value.ordinal index }
  | _ => crds

def removeRecord (crds : Crds β) (pubkey : Pubkey) (index : Nat) : Option (Crds β) := do
  let record ← crds.records[pubkey]?
  let record := record.swapRemove index
  if record.len = 0 then
    some { crds with
      records := crds.records.erase pubkey
      shredVersions := crds.shredVersions.erase pubkey }
  else
    some { crds with records := crds.records.insert pubkey record }

/-- The last entry of the table, at position `size` before, is at `index` now. -/
def moveLast (crds : Crds β) (size index : Nat) : Option (Crds β) := do
  let value ← crds.table.values[index]?
  let shards ← crds.shards.remove size value
  let shards ← shards.insert index value
  let crds := { crds with shards := shards }.moveKind size index value
  let record ← crds.records[value.value.pubkey]?
  some { crds with
    entries := crds.entries.insert value.ordinal index
    records := crds.records.insert value.value.pubkey ((record.swapRemove size).insert index ()) }

/-- Takes the value at the index, which is no longer in the table, out of the other indices. -/
def vacate (crds : Crds β) (index : Nat) (value : VersionedCrdsValue β)
    (table : IndexMap CrdsValueLabel (VersionedCrdsValue β)) (now : Nat) : Option (Crds β) := do
  let shards ← crds.shards.remove index value
  let crds := { crds with
    table := table
    purged := crds.purged ++ [(value.valueHash, now)]
    shards := shards }
  let crds := crds.untrackKind index value
  let crds := { crds with entries := crds.entries.erase value.ordinal }
  crds.removeRecord value.value.pubkey index

def remove (crds : Crds β) (key : CrdsValueLabel) (now : Nat) : Option (Crds β) :=
  match crds.table.swapRemoveFull key with
  | none => some crds
  | some (index, value, table) => do
    let crds ← crds.vacate index value table now
    let size := crds.table.len
    if index < size then crds.moveLast size index else some crds

def trimPurged (crds : Crds β) (timestamp : Nat) : Crds β :=
  { crds with purged := crds.purged.dropWhile fun entry => entry.2 < timestamp }

def updateTimestamp (now : Nat) (entry : VersionedCrdsValue β) : VersionedCrdsValue β :=
  if entry.localTimestamp < now then { entry with localTimestamp := now } else entry

/-- The timestamp of the origin, or those of all records when the table does not have it. -/
def updateRecordTimestamp (crds : Crds β) (pubkey : Pubkey) (now : Nat) : Option (Crds β) :=
  match crds.table.getIndexOf (.legacyContactInfo pubkey) with
  | some origin => some { crds with table := crds.table.modifyIndex origin (updateTimestamp now) }
  | none => do
    let indices := ((crds.records[pubkey]?).getD .empty).keys
    let table ← indices.foldlM (fun table index =>
      if index < table.len then some (table.modifyIndex index (updateTimestamp now)) else none)
      crds.table
    some { crds with table := table }

/-- The multiplications are those of `usize`. -/
def shouldTrim (crds : Crds β) (cap : Nat) : Bool :=
  11 * cap % 2 ^ 64 < 10 * crds.records.size % 2 ^ 64

/-- The `size` many pubkeys with the lowest stake, without those to keep. -/
def lowestStaked (order : KeyOrder) (crds : Crds β) (size : Nat) (keep : List Pubkey)
    (stakes : TreeMap Pubkey Nat) : List Pubkey :=
  let keys := (order.iterate crds.records.keys).map fun k => ((stakes[k]?).getD 0, k)
  let keys := if size < keys.length then order.selectNth size keys else keys
  ((keys.take size).map Prod.snd).filter fun k => !keep.contains k

/-- Drops `size` many pubkeys with the lowest stake. -/
def drop (order : KeyOrder) (crds : Crds β) (size : Nat) (keep : List Pubkey)
    (stakes : TreeMap Pubkey Nat) (now : Nat) : Option (Crds β × Except CrdsError Nat) :=
  if stakes.values.all (· = 0) then some (crds, .error .unknownStakes)
  else do
    let indices ← (crds.lowestStaked order size keep stakes).mapM fun k =>
      (crds.records[k]?).map IndexMap.keys
    let keys ← indices.flatten.mapM fun i => (crds.table.getIndex i).map Prod.fst
    let crds ← keys.foldlM (fun crds key => crds.remove key now) crds
    some (crds, .ok keys.length)

def trim (order : KeyOrder) (crds : Crds β) (cap : Nat) (keep : List Pubkey)
    (stakes : TreeMap Pubkey Nat) (now : Nat) : Option (Crds β × Except CrdsError Nat) :=
  if crds.shouldTrim cap then crds.drop order (crds.records.size - cap) keep stakes now
  else some (crds, .ok 0)

end Crds

end Nuah
