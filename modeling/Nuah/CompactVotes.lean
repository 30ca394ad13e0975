import Nuah.SerdeVarint
import Nuah.VoteState

/-!
# Compact vote state updates

The wire format of a vote state update (`serde_compact_vote_state_update` of
`sdk/program/src/vote/state/mod.rs`): lockouts by their distance from the one before. What bincode
makes of the fields is given by codecs.
-/

namespace Nuah

open ByteStrings Codecs

namespace CompactVotes

structure LockoutOffset where
  offset : Slot
  confirmationCount : UInt8
deriving Repr, DecidableEq

structure CompactVoteStateUpdate where
  root : Slot
  lockoutOffsets : List LockoutOffset
  hash : Hash
  timestamp : Option UnixTimestamp
deriving Repr, DecidableEq

def LockoutOffset.codec : Codec LockoutOffset :=
  ((SerdeVarint.varInt 64).pair Codec.byte).map
    (fun (offset, confirmationCount) => ⟨offset, confirmationCount⟩)
    (fun lockoutOffset => (lockoutOffset.offset, lockoutOffset.confirmationCount))
    (fun _ => rfl)

def CompactVoteStateUpdate.codec : Codec CompactVoteStateUpdate :=
  ((Codec.word 8).pair ((ShortVec.shortVec LockoutOffset.codec).pair
      ((Codec.bigEndian 32).pair (Codec.signedWord 8).option))).map
    (fun (root, lockoutOffsets, hash, timestamp) => ⟨root, lockoutOffsets, hash, timestamp⟩)
    (fun update => (update.root, update.lockoutOffsets, update.hash, update.timestamp))
    (fun _ => rfl)

inductive CompactError where
  | invalidVoteLockout
  | invalidConfirmationCount
  | invalidLockoutOffset
  | bincode
deriving Repr, DecidableEq

def lockoutOffset (slot : Slot) (lockout : Lockout) : Except CompactError LockoutOffset :=
  match checkedSub lockout.slot slot with
  | none => .error .invalidVoteLockout
  | some offset =>
    if lockout.confirmationCount ≤ u8Max then .ok ⟨offset, UInt8.ofNat lockout.confirmationCount⟩
    else .error .invalidConfirmationCount

def lockoutOffsets : Slot → List Lockout → Except CompactError (List LockoutOffset)
  | _, [] => .ok []
  | slot, lockout :: lockouts => do
    let offset ← lockoutOffset slot lockout
    let offsets ← lockoutOffsets lockout.slot lockouts
    .ok (offset :: offsets)

def lockoutAt (slot : Slot) (offset : LockoutOffset) : Except CompactError Lockout :=
  match checkedAddU64 slot offset.offset with
  | none => .error .invalidLockoutOffset
  | some slot => .ok (Lockout.newWithConfirmationCount slot offset.confirmationCount.toNat)

def lockoutsAt : Slot → List LockoutOffset → Except CompactError (List Lockout)
  | _, [] => .ok []
  | slot, offset :: offsets => do
    let lockout ← lockoutAt slot offset
    let lockouts ← lockoutsAt lockout.slot offsets
    .ok (lockout :: lockouts)

def toCompact (update : VoteStateUpdate) : Except CompactError CompactVoteStateUpdate := do
  let offsets ← lockoutOffsets (update.root.getD 0) update.lockouts
  .ok ⟨update.root.getD u64Max, offsets, update.hash, update.timestamp⟩

def ofCompact (compact : CompactVoteStateUpdate) : Except CompactError VoteStateUpdate := do
  let root := if compact.root ≠ u64Max then some compact.root else none
  let lockouts ← lockoutsAt (root.getD 0) compact.lockoutOffsets
  .ok ⟨lockouts, root, compact.hash, compact.timestamp⟩

def serialize (update : VoteStateUpdate) : Except CompactError ByteString := do
  let compact ← toCompact update
  match CompactVoteStateUpdate.codec.write compact with
  | some bytes => .ok bytes
  | none => .error .bincode

def deserialize (input : ByteString) : Except CompactError (VoteStateUpdate × ByteString) :=
  match CompactVoteStateUpdate.codec.read input with
  | none => .error .bincode
  | some (compact, rest) => do
    let update ← ofCompact compact
    .ok (update, rest)

end CompactVotes

end Nuah
