import Nuah.VersionedTransaction

/-!
# Signature verification of packets

Packets are verified before they are deserialized: the positions of the signatures, of the keys and
of the message are read from the raw bytes. Verifying a single signature is a parameter.
-/

namespace Nuah

open ByteStrings Codecs ShortVec

def packetDataSize : Nat := 1280 - 40 - 8

namespace PacketFlags

def discard : UInt8 := 0b00000001
def simpleVoteTx : UInt8 := 0b00001000

end PacketFlags

structure PacketMeta where
  size : Nat
  flags : UInt8
deriving Repr, DecidableEq

def PacketMeta.discard (m : PacketMeta) : Bool :=
  m.flags &&& PacketFlags.discard == PacketFlags.discard

def PacketMeta.isSimpleVoteTx (m : PacketMeta) : Bool :=
  m.flags &&& PacketFlags.simpleVoteTx == PacketFlags.simpleVoteTx

structure Packet where
  buffer : FixedBytes packetDataSize
  packetMeta : PacketMeta
deriving DecidableEq

namespace Packet

/-- `data(..)`. -/
def data (packet : Packet) : Option ByteString :=
  if packet.packetMeta.discard then none
  else if packet.packetMeta.size ≤ packetDataSize then
    some (packet.buffer.1.take packet.packetMeta.size)
  else none

/-- `data(index)`. -/
def dataAt (packet : Packet) (index : Nat) : Option UInt8 := do
  let bytes ← packet.data
  bytes[index]?

/-- `data(start..)`. -/
def dataFrom (packet : Packet) (start : Nat) : Option ByteString := do
  let bytes ← packet.data
  if start ≤ bytes.length then some (bytes.drop start) else none

/-- `data(start..stop)`. -/
def dataRange (packet : Packet) (start stop : Nat) : Option ByteString := do
  let bytes ← packet.data
  if start ≤ stop ∧ stop ≤ bytes.length then some ((bytes.drop start).take (stop - start)) else none

/-- `deserialize_slice(..)`. The limit on the bytes that are read is the length of the buffer. -/
def deserializeSlice {α : Type} (packet : Packet) (codec : Codec α) : Option α := do
  let bytes ← packet.data
  codec.readAll bytes

def setSimpleVoteTx (packet : Packet) : Packet :=
  { packet with packetMeta :=
      { packet.packetMeta with flags := packet.packetMeta.flags ||| PacketFlags.simpleVoteTx } }

end Packet

def checkedMulU64 (a b : Nat) : Option Nat := if a * b ≤ u64Max then some (a * b) else none

def okOrError {ε α : Type} (e : ε) : Option α → Except ε α
  | some a => .ok a
  | none => .error e

/-- `if p { return Err(e) }`. -/
def refuseIf {ε : Type} (p : Prop) [Decidable p] (e : ε) : Except ε Unit :=
  if p then .error e else .ok ()

namespace Sigverify

def sizeOfSignature : Nat := 64
def sizeOfPubkey : Nat := 32
def sizeOfHash : Nat := 32
def messageHeaderLength : Nat := 3

structure PacketOffsets where
  sigLen : Nat
  sigStart : Nat
  msgStart : Nat
  pubkeyStart : Nat
  pubkeyLen : Nat
deriving Repr, DecidableEq

inductive PacketError where
  | invalidLen
  | invalidPubkeyLen
  | invalidShortVec
  | invalidSignatureLen
  | mismatchSignatureLen
  | payerNotWritable
  | invalidProgramIdIndex
  | invalidProgramLen
  | unsupportedVersion
deriving Repr, DecidableEq

/-- `u32::try_from(n)?`. -/
def tryU32 (n : Nat) : Except PacketError Nat := if n ≤ u32Max then .ok n else .error .invalidLen

/-- `filter(|v| *v <= packet.meta().size)`. -/
def within (packet : Packet) (n : Option Nat) : Option Nat :=
  n.filter fun v => v ≤ packet.packetMeta.size

/-- The start of the message header, by the version bit of the first byte of the message. -/
def msgHeaderOffset (packet : Packet) (msgStartOffset : Nat) : Except PacketError Nat := do
  refuseIf (packet.packetMeta.size ≤ msgStartOffset) .invalidSignatureLen
  let messagePrefix ← okOrError .invalidSignatureLen (packet.dataAt msgStartOffset)
  if messagePrefix &&& messageVersionPrefix ≠ 0 then
    if messagePrefix &&& ~~~messageVersionPrefix = 0 then
      okOrError .invalidLen (checkedAddU64 msgStartOffset 1)
    else .error .unsupportedVersion
  else .ok msgStartOffset

/-- The number of signatures that the header requires, which must be more than it has of read-only
signers. -/
def requiredSignatures (packet : Packet) (headerOffset : Nat) : Except PacketError Nat := do
  let headerOffsetPlusOne ← okOrError .invalidLen (checkedAddU64 headerOffset 1)
  let _ ← okOrError .invalidSignatureLen
    (within packet (checkedAddU64 headerOffsetPlusOne messageHeaderLength))
  let sigLenMaybeTrusted ← okOrError .invalidSignatureLen (packet.dataAt headerOffset)
  let _ ← okOrError .invalidSignatureLen (checkedAddU64 headerOffset messageHeaderLength)
  let readonlySigned ← okOrError .invalidSignatureLen (packet.dataAt headerOffsetPlusOne)
  refuseIf (sigLenMaybeTrusted ≤ readonlySigned) .payerNotWritable
  .ok sigLenMaybeTrusted.toNat

def accountKeys (packet : Packet) (keysLenOffset : Nat) : Except PacketError (Nat × Nat) := do
  let (pubkeyLen, pubkeyLenSize) ← okOrError .invalidShortVec
    ((packet.dataFrom keysLenOffset).bind decodeShortu16Len)
  let pubkeyStart ← okOrError .invalidPubkeyLen (checkedAddU64 keysLenOffset pubkeyLenSize)
  let _ ← okOrError .invalidPubkeyLen (within packet
    ((checkedMulU64 pubkeyLen sizeOfPubkey).bind (checkedAddU64 · pubkeyStart)))
  .ok (pubkeyLen, pubkeyStart)

def offsetsInPacket (packet : Packet) : Except PacketError PacketOffsets := do
  let _ ← okOrError .invalidLen (within packet (checkedAddU64 1 sizeOfSignature))
  let (sigLenUntrusted, sigSize) ← okOrError .invalidShortVec (packet.data.bind decodeShortu16Len)
  let msgStartOffset ← okOrError .invalidLen
    ((checkedMulU64 sigLenUntrusted sizeOfSignature).bind (checkedAddU64 · sigSize))
  let headerOffset ← msgHeaderOffset packet msgStartOffset
  let sigLenMaybeTrusted ← requiredSignatures packet headerOffset
  refuseIf (sigLenMaybeTrusted ≠ sigLenUntrusted) .mismatchSignatureLen
  let (pubkeyLen, pubkeyStart) ← accountKeys packet (headerOffset + messageHeaderLength)
  refuseIf (pubkeyLen < sigLenUntrusted) .invalidPubkeyLen
  .ok ⟨sigLenUntrusted, sigSize, msgStartOffset, pubkeyStart, pubkeyLen⟩

def doGetPacketOffsets (packet : Packet) (currentOffset : Nat) :
    Except PacketError PacketOffsets := do
  let offsets ← offsetsInPacket packet
  let sigStart ← okOrError .invalidLen (checkedAddU64 currentOffset offsets.sigStart)
  let msgStart ← okOrError .invalidLen (checkedAddU64 currentOffset offsets.msgStart)
  let pubkeyStart ← okOrError .invalidLen (checkedAddU64 currentOffset offsets.pubkeyStart)
  .ok ⟨← tryU32 offsets.sigLen, ← tryU32 sigStart, ← tryU32 msgStart, ← tryU32 pubkeyStart,
    ← tryU32 offsets.pubkeyLen⟩

variable (voteProgramId : KeyBytes)

/-- The program of the only instruction of a legacy message. -/
def simpleVoteProgram (packet : Packet) (pubkeyStart pubkeyLen : Nat) :
    Except PacketError ByteString := do
  let instructionsLenOffset ← okOrError .invalidLen
    (((checkedMulU64 pubkeyLen sizeOfPubkey).bind (checkedAddU64 · pubkeyStart)).bind
      (checkedAddU64 · sizeOfHash))
  let _ ← okOrError .invalidLen (within packet (checkedAddU64 instructionsLenOffset 1))
  let (instructionLen, instructionLenSize) ← okOrError .invalidLen
    ((packet.dataFrom instructionsLenOffset).bind decodeShortu16Len)
  refuseIf (instructionLen ≠ 1) .invalidProgramLen
  let instructionStart ← okOrError .invalidLen
    (checkedAddU64 instructionsLenOffset instructionLenSize)
  let _ ← okOrError .invalidLen (within packet (checkedAddU64 instructionStart 1))
  let programIdIndex ← okOrError .invalidLen (packet.dataAt instructionStart)
  refuseIf (pubkeyLen ≤ programIdIndex.toNat) .invalidProgramIdIndex
  let programIdStart ← okOrError .invalidLen
    ((checkedMulU64 programIdIndex.toNat sizeOfPubkey).bind (checkedAddU64 · pubkeyStart))
  let programIdEnd ← okOrError .invalidLen (checkedAddU64 programIdStart sizeOfPubkey)
  okOrError .invalidLen (packet.dataRange programIdStart programIdEnd)

/-- The packet, with the flag set if it holds a simple vote. -/
def checkForSimpleVoteTransaction (packet : Packet) (offsets : PacketOffsets)
    (currentOffset : Nat) : Except PacketError Packet := do
  refuseIf (2 < offsets.sigLen) .invalidSignatureLen
  let msgStart ← okOrError .invalidLen (checkedSub offsets.msgStart currentOffset)
  let messagePrefix ← okOrError .invalidLen (packet.dataAt msgStart)
  if messagePrefix &&& messageVersionPrefix ≠ 0 then .ok packet
  else do
    let pubkeyStart ← okOrError .invalidLen (checkedSub offsets.pubkeyStart currentOffset)
    let program ← simpleVoteProgram packet pubkeyStart offsets.pubkeyLen
    .ok (if program = voteProgramId.1 then packet.setSimpleVoteTx else packet)

/-- The offsets, and the packet with its flags. Without offsets, or for a packet that is not a
simple vote where only those are accepted, they are zeros, with which verification fails. -/
def getPacketOffsets (packet : Packet) (currentOffset : Nat) (rejectNonVote : Bool) :
    PacketOffsets × Packet :=
  match doGetPacketOffsets packet currentOffset with
  | .error _ => (⟨0, 0, 0, 0, 0⟩, packet)
  | .ok offsets =>
    let packet :=
      match checkForSimpleVoteTransaction voteProgramId packet offsets currentOffset with
      | .ok checked => checked
      | .error _ => packet
    if !rejectNonVote || packet.packetMeta.isSimpleVoteTx then (offsets, packet)
    else (⟨0, 0, 0, 0, 0⟩, packet)

variable (verify : SignatureBytes → ByteString → ByteString → Bool)

def verifySignature (packet : Packet) (msgStart sigStart sigEnd pubkeyStart pubkeyEnd : Nat) :
    Option Bool := do
  let signature ← packet.dataRange sigStart sigEnd
  if h : signature.length = 64 then do
    let pubkey ← packet.dataRange pubkeyStart pubkeyEnd
    let message ← packet.dataFrom msgStart
    some (verify ⟨signature, h⟩ pubkey message)
  else none

def verifySignatures (packet : Packet) (msgStart : Nat) : Nat → Nat → Nat → Bool
  | 0, _, _ => true
  | left + 1, sigStart, pubkeyStart =>
    let pubkeyEnd := saturatingAddU64 pubkeyStart sizeOfPubkey
    match checkedAddU64 sigStart sizeOfSignature with
    | none => false
    | some sigEnd =>
      match verifySignature verify packet msgStart sigStart sigEnd pubkeyStart pubkeyEnd with
      | some true => verifySignatures packet msgStart left sigEnd pubkeyEnd
      | _ => false

def verifyPacket (packet : Packet) (rejectNonVote : Bool) : Bool × Packet :=
  if packet.packetMeta.discard then (false, packet)
  else
    let (offsets, packet) := getPacketOffsets voteProgramId packet 0 rejectNonVote
    if offsets.sigLen = 0 then (false, packet)
    else if packet.packetMeta.size ≤ offsets.msgStart then (false, packet)
    else (verifySignatures verify packet offsets.msgStart offsets.sigLen offsets.sigStart
      offsets.pubkeyStart, packet)

structure TxOffsets where
  signatureOffsets : List Nat
  pubkeyOffsets : List Nat
  msgStartOffsets : List Nat
  msgSizes : List Nat
deriving Repr, DecidableEq

def saturatingSub (a b : Nat) : Nat := a - b

def pushOffsets (msgStart msgSize : Nat) : Nat → Nat → Nat → TxOffsets → TxOffsets
  | 0, _, _, out => out
  | left + 1, sigOffset, pubkeyOffset, out =>
    pushOffsets msgStart msgSize left (saturatingAddU32 sigOffset sizeOfSignature)
      (saturatingAddU32 pubkeyOffset sizeOfPubkey)
      ⟨out.signatureOffsets ++ [sigOffset], out.pubkeyOffsets ++ [pubkeyOffset],
        out.msgStartOffsets ++ [msgStart], out.msgSizes ++ [saturatingSub msgSize msgStart]⟩

variable (sizeOfPacket : Nat) (rejectNonVote : Bool)

structure OffsetsState where
  currentOffset : Nat
  out : TxOffsets

def generatePacket (state : OffsetsState) (packet : Packet) : OffsetsState × (Nat × Packet) :=
  let (offsets, packet) := getPacketOffsets voteProgramId packet state.currentOffset rejectNonVote
  let msgSize := saturatingAddU64 state.currentOffset packet.packetMeta.size % 2 ^ 32
  let out := pushOffsets offsets.msgStart msgSize offsets.sigLen offsets.sigStart
    offsets.pubkeyStart state.out
  (⟨saturatingAddU64 state.currentOffset sizeOfPacket, out⟩, (offsets.sigLen, packet))

def generateBatch (state : OffsetsState) : List Packet → OffsetsState × List (Nat × Packet)
  | [] => (state, [])
  | packet :: packets =>
    let (state, first) := generatePacket voteProgramId sizeOfPacket rejectNonVote state packet
    let (state, rest) := generateBatch state packets
    (state, first :: rest)

def generateBatches (state : OffsetsState) :
    List (List Packet) → OffsetsState × List (List (Nat × Packet))
  | [] => (state, [])
  | batch :: batches =>
    let (state, first) := generateBatch voteProgramId sizeOfPacket rejectNonVote state batch
    let (state, rest) := generateBatches state batches
    (state, first :: rest)

/-- The offsets, and the numbers of signatures of the packets with their flags. -/
def generateOffsets (batches : List (List Packet)) : TxOffsets × List (List (Nat × Packet)) :=
  let (state, packets) :=
    generateBatches voteProgramId sizeOfPacket rejectNonVote ⟨0, ⟨[], [], [], []⟩⟩ batches
  (state.out, packets)

end Sigverify

inductive DeserializedPacketError where
  | shortVecError
  | signatureOverflowed (sigSize : Nat)
deriving Repr, DecidableEq

/-- The raw message, whose hash identifies the transaction. -/
def packetMessage (packet : Packet) : Except DeserializedPacketError ByteString := do
  let (sigLen, sigSize) ← okOrError .shortVecError (packet.data.bind decodeShortu16Len)
  okOrError (.signatureOverflowed sigSize)
    (((checkedMulU64 sigLen Sigverify.sizeOfSignature).bind (checkedAddU64 · sigSize)).bind
      packet.dataFrom)

end Nuah
