import Nuah.VoteStateVersions
import Nuah.Lib.Cursors

/-!
# The vote state parser

The parser written by hand (`sdk/program/src/vote/state/vote_state_deserialize.rs`), over the
readers of `sdk/program/src/serialize_utils/cursor.rs`. A slice is shorter than `2 ^ 63` bytes.
-/

namespace Nuah

open ByteStrings Codecs

inductive ParseError where
  | invalidAccountData
deriving Repr, DecidableEq

abbrev Parse := Except (Fault ParseError)

def invalidAccountData {α : Type} : Parse α := .error (.err .invalidAccountData)

def readExact (cursor : Cursor) (n : Nat) : Parse (ByteString × Cursor) :=
  if cursor.position + n ≤ cursor.input.length then
    .ok (cursor.rest.take n, { cursor with position := cursor.position + n })
  else invalidAccountData

def readWord (n : Nat) (cursor : Cursor) : Parse (Nat × Cursor) := do
  let (buf, cursor) ← readExact cursor n
  .ok (ofLeBytes buf, cursor)

def readU8 : Cursor → Parse (Nat × Cursor) := readWord 1

def readU32 : Cursor → Parse (Nat × Cursor) := readWord 4

def readU64 : Cursor → Parse (Nat × Cursor) := readWord 8

def readOptionU64 (cursor : Cursor) : Parse (Option Nat × Cursor) := do
  let (variant, cursor) ← readU8 cursor
  match variant with
  | 0 => .ok (none, cursor)
  | 1 => do
    let (n, cursor) ← readU64 cursor
    .ok (some n, cursor)
  | _ => invalidAccountData

/-- `i64::from_le_bytes`. -/
def readI64 (cursor : Cursor) : Parse (Int × Cursor) := do
  let (buf, cursor) ← readExact cursor 8
  let n := ofLeBytes buf
  .ok (if n < 2 ^ 63 then n else (n : Int) - 2 ^ 64, cursor)

def readPubkey (cursor : Cursor) : Parse (Pubkey × Cursor) := do
  let (buf, cursor) ← readExact cursor 32
  .ok (ofLeBytes buf.reverse, cursor)

def readBool (cursor : Cursor) : Parse (Bool × Cursor) := do
  let (byte, cursor) ← readU8 cursor
  match byte with
  | 0 => .ok (false, cursor)
  | 1 => .ok (true, cursor)
  | _ => invalidAccountData

def readVote (hasLatency : Bool) (cursor : Cursor) : Parse (LandedVote × Cursor) := do
  let (latency, cursor) ← if hasLatency then readU8 cursor else .ok (0, cursor)
  let (slot, cursor) ← readU64 cursor
  let (confirmationCount, cursor) ← readU32 cursor
  .ok (⟨latency, Lockout.newWithConfirmationCount slot confirmationCount⟩, cursor)

def readVotes (hasLatency : Bool) : Nat → Cursor → VoteState → Parse (VoteState × Cursor)
  | 0, cursor, vs => .ok (vs, cursor)
  | count + 1, cursor, vs => do
    let (vote, cursor) ← readVote hasLatency cursor
    readVotes hasLatency count cursor { vs with votes := vs.votes ++ [vote] }

def readVotesInto (cursor : Cursor) (vs : VoteState) (hasLatency : Bool) :
    Parse (VoteState × Cursor) := do
  let (voteCount, cursor) ← readU64 cursor
  readVotes hasLatency voteCount cursor vs

def readAuthorizedVoters : Nat → Cursor → VoteState → Parse (VoteState × Cursor)
  | 0, cursor, vs => .ok (vs, cursor)
  | count + 1, cursor, vs => do
    let (epoch, cursor) ← readU64 cursor
    let (authorizedVoter, cursor) ← readPubkey cursor
    readAuthorizedVoters count cursor { vs with
      authorizedVoters := KeyedLists.insert epoch authorizedVoter vs.authorizedVoters }

def readAuthorizedVotersInto (cursor : Cursor) (vs : VoteState) : Parse (VoteState × Cursor) := do
  let (authorizedVoterCount, cursor) ← readU64 cursor
  readAuthorizedVoters authorizedVoterCount cursor vs

def readPriorVoter (cursor : Cursor) : Parse ((Pubkey × Epoch × Epoch) × Cursor) := do
  let (priorVoter, cursor) ← readPubkey cursor
  let (fromEpoch, cursor) ← readU64 cursor
  let (untilEpoch, cursor) ← readU64 cursor
  .ok ((priorVoter, fromEpoch, untilEpoch), cursor)

/-- An item at its place in the buffer. Items after a null voter are refused unless they are null
as well. -/
def storePriorVoter (buf : List (Pubkey × Epoch × Epoch)) (i : Nat) (item : Pubkey × Epoch × Epoch)
    (encounteredNullVoter : Bool) : Parse (List (Pubkey × Epoch × Epoch) × Bool) :=
  if item = (0, 0, 0) then .ok (buf, true)
  else if encounteredNullVoter then invalidAccountData
  else if i < buf.length then .ok (buf.set i item, encounteredNullVoter)
  else .error .panic

/-- So many items, from the `i`th on. -/
def readPriorVoters : Nat → Nat → Cursor → List (Pubkey × Epoch × Epoch) → Bool →
    Parse (List (Pubkey × Epoch × Epoch) × Cursor)
  | 0, _, cursor, buf, _ => .ok (buf, cursor)
  | left + 1, i, cursor, buf, encounteredNullVoter => do
    let (item, cursor) ← readPriorVoter cursor
    let (buf, encounteredNullVoter) ← storePriorVoter buf i item encounteredNullVoter
    readPriorVoters left (i + 1) cursor buf encounteredNullVoter

/-- `serialized_size` of the prior voters. -/
def priorVotersSize (c : CircBuf (Pubkey × Epoch × Epoch)) : Nat := c.buf.length * 48 + 8 + 1

def readPriorVotersInto (cursor : Cursor) (vs : VoteState) : Parse (VoteState × Cursor) := do
  let priorVotersPosition := cursor.position
  let isEmptyPosition := priorVotersSize vs.priorVoters + priorVotersPosition - 1
  let (isEmpty, cursor) ← readBool { cursor with position := isEmptyPosition }
  if isEmpty then .ok (vs, cursor)
  else do
    let cursor := { cursor with position := priorVotersPosition }
    let (buf, cursor) ← readPriorVoters maxItems 0 cursor vs.priorVoters.buf false
    let (idx, cursor) ← readU64 cursor
    let (isEmpty, cursor) ← readBool cursor
    .ok ({ vs with priorVoters := ⟨buf, idx, isEmpty⟩ }, cursor)

def readEpochCredits : Nat → Cursor → VoteState → Parse (VoteState × Cursor)
  | 0, cursor, vs => .ok (vs, cursor)
  | count + 1, cursor, vs => do
    let (epoch, cursor) ← readU64 cursor
    let (credits, cursor) ← readU64 cursor
    let (prevCredits, cursor) ← readU64 cursor
    readEpochCredits count cursor { vs with
      epochCredits := vs.epochCredits ++ [(epoch, credits, prevCredits)] }

def readEpochCreditsInto (cursor : Cursor) (vs : VoteState) : Parse (VoteState × Cursor) := do
  let (epochCreditCount, cursor) ← readU64 cursor
  readEpochCredits epochCreditCount cursor vs

def readLastTimestampInto (cursor : Cursor) (vs : VoteState) : Parse (VoteState × Cursor) := do
  let (slot, cursor) ← readU64 cursor
  let (timestamp, cursor) ← readI64 cursor
  .ok ({ vs with lastTimestamp := ⟨slot, timestamp⟩ }, cursor)

def deserializeVoteStateInto (cursor : Cursor) (vs : VoteState) (hasLatency : Bool) :
    Parse (VoteState × Cursor) := do
  let (nodePubkey, cursor) ← readPubkey cursor
  let (authorizedWithdrawer, cursor) ← readPubkey cursor
  let (commission, cursor) ← readU8 cursor
  let vs := { vs with
    nodePubkey := nodePubkey
    authorizedWithdrawer := authorizedWithdrawer
    commission := commission }
  let (vs, cursor) ← readVotesInto cursor vs hasLatency
  let (rootSlot, cursor) ← readOptionU64 cursor
  let (vs, cursor) ← readAuthorizedVotersInto cursor { vs with rootSlot := rootSlot }
  let (vs, cursor) ← readPriorVotersInto cursor vs
  let (vs, cursor) ← readEpochCreditsInto cursor vs
  readLastTimestampInto cursor vs

namespace VoteState

/-- `serialized_size`. -/
def serializedSize (vs : VoteState) : Nat :=
  32 + 32 + 1 + (8 + vs.votes.length * 13) + (if vs.rootSlot.isSome then 9 else 1) +
    (8 + vs.authorizedVoters.length * 40) + priorVotersSize vs.priorVoters +
    (8 + vs.epochCredits.length * 24) + 16

def deserializeVariant (variant : Nat) (cursor : Cursor) (vs : VoteState) :
    Parse (VoteState × Cursor) :=
  match variant with
  | 0 => invalidAccountData
  | 1 => deserializeVoteStateInto cursor vs false
  | 2 => deserializeVoteStateInto cursor vs true
  | _ => invalidAccountData

def deserializeInto (input : ByteString) (vs : VoteState) : Parse VoteState :=
  if input.length < vs.serializedSize then invalidAccountData
  else do
    let (variant, cursor) ← readU32 ⟨input, 0⟩
    let (vs, cursor) ← deserializeVariant variant cursor vs
    if input.length < cursor.position then invalidAccountData else .ok vs

end VoteState

end Nuah
