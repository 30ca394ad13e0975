import Nuah.Lib.Codecs
import Nuah.Lib.MerkleTrees
import Nuah.Primitives

/-!
# Shreds

`ledger/src/shred.rs` and its modules: the checks a shred passes when it is parsed, and the
accessors of `shred::layout`. What differs between Merkle data and coding shreds is a
`MerkleLayout`. A failed debug assertion is a panic.
-/

namespace Nuah

open ByteStrings Codecs

abbrev Signature := FixedBytes 64
abbrev Digest := FixedBytes 32

/-- `hashv` of the concatenation of its arguments. -/
abbrev HashFunction := ByteString → Digest

def sizeOfDataShredHeaders : Nat := 88
def sizeOfCodingShredHeaders : Nat := 89
def sizeOfShredSignature : Nat := 64
def sizeOfMerkleRoot : Nat := 32
def sizeOfMerkleProofEntry : Nat := 20
def maxDataShredsPerSlot : Nat := 32768
def maxCodeShredsPerSlot : Nat := maxDataShredsPerSlot
def dataShredsPerFecBlock : Nat := 32

/-! ## Errors -/

inductive ShredType where
  | data
  | code
deriving Repr, DecidableEq

inductive ErasureError where
  | tooFewShards
  | tooFewDataShards
  | tooFewParityShards
  | tooManyShards
  | tooFewShardsPresent
  | invalidIndex
deriving Repr, DecidableEq

inductive ShredError where
  | bincodeError
  | erasureError (e : ErasureError)
  | invalidDataSize (size payload : Nat)
  | invalidErasureShardIndex
  | invalidMerkleProof
  | invalidNumCodingShreds (n : Nat)
  | invalidParentOffset (slot parentOffset : Nat)
  | invalidParentSlot (slot parentSlot : Nat)
  | invalidPayloadSize (size : Nat)
  | invalidProofSize (proofSize : UInt8)
  | invalidRecoveredShred
  | invalidShardSize (size : Nat)
  | invalidShredFlags (flags : UInt8)
  | invalidShredIndex (shredType : ShredType) (index : Nat)
  | invalidShredType
  | invalidShredVariant
  | ioError
  | unknownProofSize
deriving Repr, DecidableEq

abbrev ShredResult := Except (Fault ShredError)

namespace ShredResult

variable {α : Type}

def fail (e : ShredError) : ShredResult α := .error (.err e)

/-- `ok_or` of the source. -/
def orFail (e : ShredError) : Option α → ShredResult α
  | some a => .ok a
  | none => fail e

/-- `.ok()` of a result that is not a panic. -/
def ok? : ShredResult α → Option α
  | .ok a => some a
  | .error _ => none

end ShredResult

open ShredResult

/-! ## Headers -/

def ShredType.toByte : ShredType → UInt8
  | .data => 0xa5
  | .code => 0x5a

inductive ShredVariant where
  | legacyCode
  | legacyData
  | merkleCode (proofSize : UInt8) (chained resigned : Bool)
  | merkleData (proofSize : UInt8) (chained resigned : Bool)
deriving Repr, DecidableEq

namespace ShredVariant

def shredType : ShredVariant → ShredType
  | legacyCode => .code
  | legacyData => .data
  | merkleCode .. => .code
  | merkleData .. => .data

def ofByte (byte : UInt8) : Option ShredVariant :=
  if byte = ShredType.code.toByte then some legacyCode
  else if byte = ShredType.data.toByte then some legacyData
  else
    let proofSize := byte &&& 0x0f
    if byte &&& 0xf0 = 0x40 then some (merkleCode proofSize false false)
    else if byte &&& 0xf0 = 0x60 then some (merkleCode proofSize true false)
    else if byte &&& 0xf0 = 0x70 then some (merkleCode proofSize true true)
    else if byte &&& 0xf0 = 0x80 then some (merkleData proofSize false false)
    else if byte &&& 0xf0 = 0x90 then some (merkleData proofSize true false)
    else if byte &&& 0xf0 = 0xb0 then some (merkleData proofSize true true)
    else none

end ShredVariant

abbrev ShredFlags := UInt8

namespace ShredFlags

def shredTickReferenceMask : ShredFlags := 0x3f
def dataCompleteShred : ShredFlags := 0x40
/-- Also implies `dataCompleteShred`. -/
def lastShredInSlot : ShredFlags := 0xc0

def contains (flags other : ShredFlags) : Bool := flags &&& other = other
def intersects (flags other : ShredFlags) : Bool := flags &&& other ≠ 0

end ShredFlags

structure ShredCommonHeader where
  signature : Signature
  shredVariant : ShredVariant
  slot : UInt64
  index : UInt32
  version : UInt16
  fecSetIndex : UInt32
deriving DecidableEq

structure DataShredHeader where
  parentOffset : UInt16
  flags : ShredFlags
  /-- Of the common and data headers and the data. -/
  size : UInt16
deriving DecidableEq

structure CodingShredHeader where
  numDataShreds : UInt16
  numCodingShreds : UInt16
  position : UInt16
deriving DecidableEq

def wordAt (bytes : ByteString) (offset width : Nat) : Option Nat :=
  (slice bytes offset (offset + width)).map ofLeBytes

def u64At (bytes : ByteString) (offset : Nat) : Option UInt64 := (wordAt bytes offset 8).map .ofNat
def u32At (bytes : ByteString) (offset : Nat) : Option UInt32 := (wordAt bytes offset 4).map .ofNat
def u16At (bytes : ByteString) (offset : Nat) : Option UInt16 := (wordAt bytes offset 2).map .ofNat

def signatureAt (bytes : ByteString) (offset : Nat) : Option Signature :=
  if h : offset + 64 ≤ bytes.length then
    some ⟨(bytes.drop offset).take 64, by rw [List.length_take_of_le]; rw [List.length_drop]; omega⟩
  else none

def ShredCommonHeader.deserialize (bytes : ByteString) : ShredResult ShredCommonHeader :=
  orFail .bincodeError do
    let signature ← signatureAt bytes 0
    let shredVariant ← (bytes[64]?).bind ShredVariant.ofByte
    let slot ← u64At bytes 65
    let index ← u32At bytes 73
    let version ← u16At bytes 77
    let fecSetIndex ← u32At bytes 79
    some { signature, shredVariant, slot, index, version, fecSetIndex }

def DataShredHeader.deserialize (bytes : ByteString) : ShredResult DataShredHeader :=
  orFail .bincodeError do
    let parentOffset ← u16At bytes 83
    let flags ← bytes[85]?
    let size ← u16At bytes 86
    some { parentOffset, flags, size }

def CodingShredHeader.deserialize (bytes : ByteString) : ShredResult CodingShredHeader :=
  orFail .bincodeError do
    let numDataShreds ← u16At bytes 83
    let numCodingShreds ← u16At bytes 85
    let position ← u16At bytes 87
    some { numDataShreds, numCodingShreds, position }

structure ShredData where
  commonHeader : ShredCommonHeader
  dataHeader : DataShredHeader
  payload : ByteString
deriving DecidableEq

structure ShredCode where
  commonHeader : ShredCommonHeader
  codingHeader : CodingShredHeader
  payload : ByteString
deriving DecidableEq

/-! ## Merkle proofs -/

/-- `b"\x00SOLANA_MERKLE_SHREDS_LEAF"`. -/
def merkleHashPrefixLeaf : ByteString :=
  0 :: "SOLANA_MERKLE_SHREDS_LEAF".toList.map fun c => UInt8.ofNat c.toNat

/-- `b"\x01SOLANA_MERKLE_SHREDS_NODE"`. -/
def merkleHashPrefixNode : ByteString :=
  1 :: "SOLANA_MERKLE_SHREDS_NODE".toList.map fun c => UInt8.ofNat c.toNat

/-- The part of a node that proofs hold and joins hash. -/
def proofEntry (node : Digest) : ByteString := node.1.take sizeOfMerkleProofEntry

def joinEntries (hash : HashFunction) (node other : ByteString) : Digest :=
  hash (merkleHashPrefixNode ++ node ++ other)

def getMerkleRoot (hash : HashFunction) (index : Nat) (node : Digest) (proof : List ByteString) :
    ShredResult Digest :=
  let (index, root) := MerkleTrees.climb proofEntry (joinEntries hash) index node proof
  if index = 0 then .ok root else fail .invalidMerkleProof

/-- `chunks(SIZE_OF_MERKLE_PROOF_ENTRY)` of so many entries. -/
def proofEntries : Nat → ByteString → List ByteString
  | 0, _ => []
  | n + 1, bytes =>
    bytes.take sizeOfMerkleProofEntry :: proofEntries n (bytes.drop sizeOfMerkleProofEntry)

def getMerkleProof (shred : ByteString) (proofOffset : Nat) (proofSize : UInt8) :
    ShredResult (List ByteString) := do
  let size := proofSize.toNat * sizeOfMerkleProofEntry
  let proof ← orFail (.invalidPayloadSize shred.length) (slice shred proofOffset (proofOffset + size))
  return proofEntries proofSize.toNat proof

def getMerkleNode (hash : HashFunction) (shred : ByteString) (start stop : Nat) :
    ShredResult Digest := do
  let node ← orFail (.invalidPayloadSize shred.length) (slice shred start stop)
  return hash (merkleHashPrefixLeaf ++ node)

/-! ## Merkle layouts -/

/-- What differs between Merkle data and coding shreds. -/
structure MerkleLayout where
  sizeOfPayload : Nat
  sizeOfHeaders : Nat
  /-- Where the erasure coded part of the payload starts. -/
  shardStart : Nat
  /-- Proof size, chained and resigned of a variant with this layout. -/
  parameters : ShredVariant → Option (UInt8 × Bool × Bool)

namespace MerkleLayout

def code : MerkleLayout where
  sizeOfPayload := 1228
  sizeOfHeaders := sizeOfCodingShredHeaders
  shardStart := sizeOfCodingShredHeaders
  parameters
    | .merkleCode proofSize chained resigned => some (proofSize, chained, resigned)
    | _ => none

def data : MerkleLayout where
  sizeOfPayload := code.sizeOfPayload - code.sizeOfHeaders + sizeOfShredSignature
  sizeOfHeaders := sizeOfDataShredHeaders
  shardStart := sizeOfShredSignature
  parameters
    | .merkleData proofSize chained resigned => some (proofSize, chained, resigned)
    | _ => none

variable (layout : MerkleLayout)

/-- The size of the data or of the erasure codes. -/
def capacity (proofSize : UInt8) (chained resigned : Bool) : ShredResult Nat := do
  assertOrPanic (chained || !resigned)
  orFail (.invalidProofSize proofSize) (checkedSub layout.sizeOfPayload
    (layout.sizeOfHeaders + (if chained then sizeOfMerkleRoot else 0) +
      proofSize.toNat * sizeOfMerkleProofEntry + (if resigned then sizeOfShredSignature else 0)))

def getProofOffset (proofSize : UInt8) (chained resigned : Bool) : ShredResult Nat := do
  let capacity ← layout.capacity proofSize chained resigned
  return layout.sizeOfHeaders + capacity + (if chained then sizeOfMerkleRoot else 0)

/-- The parameters of the variant, an error if it is not one of the layout. -/
def variantParameters (variant : ShredVariant) : ShredResult (UInt8 × Bool × Bool) :=
  orFail .invalidShredVariant (layout.parameters variant)

def proofSize (variant : ShredVariant) : ShredResult UInt8 := do
  let (proofSize, _, _) ← layout.variantParameters variant
  return proofSize

def proofOffset (variant : ShredVariant) : ShredResult Nat := do
  let (proofSize, chained, resigned) ← layout.variantParameters variant
  layout.getProofOffset proofSize chained resigned

def merkleProof (variant : ShredVariant) (payload : ByteString) :
    ShredResult (List ByteString) := do
  let proofSize ← layout.proofSize variant
  let proofOffset ← layout.proofOffset variant
  getMerkleProof payload proofOffset proofSize

/-- The root over a shred at the given erasure shard index. -/
def merkleRoot (hash : HashFunction) (variant : ShredVariant) (payload : ByteString)
    (shardIndex : ShredResult Nat) : ShredResult Digest := do
  let proofSize ← layout.proofSize variant
  let index ← shardIndex
  let proofOffset ← layout.proofOffset variant
  let proof ← getMerkleProof payload proofOffset proofSize
  let node ← getMerkleNode hash payload sizeOfShredSignature proofOffset
  getMerkleRoot hash index node proof

def erasureShardAsSlice (variant : ShredVariant) (payload : ByteString) :
    ShredResult ByteString := do
  if payload.length ≠ layout.sizeOfPayload then fail (.invalidPayloadSize payload.length)
  else
    let (proofSize, chained, resigned) ← layout.variantParameters variant
    let capacity ← layout.capacity proofSize chained resigned
    orFail (.invalidPayloadSize payload.length)
      (slice payload layout.shardStart (layout.sizeOfHeaders + capacity))

end MerkleLayout

/-! ## Data shreds -/

namespace ShredData

variable (shred : ShredData)

def parent : ShredResult Slot :=
  let slot := shred.commonHeader.slot.toNat
  let parentOffset := shred.dataHeader.parentOffset.toNat
  if parentOffset = 0 ∧ slot ≠ 0 then fail (.invalidParentOffset slot parentOffset)
  else orFail (.invalidParentOffset slot parentOffset) (checkedSub slot parentOffset)

def referenceTick : UInt8 := shred.dataHeader.flags &&& ShredFlags.shredTickReferenceMask

def erasureShardIndex : ShredResult Nat :=
  orFail .invalidErasureShardIndex
    (checkedSub shred.commonHeader.index.toNat shred.commonHeader.fecSetIndex.toNat)

/-- The ledger data of a shred with a buffer of the given size. -/
def dataWithin (bufferSize : Nat) : ShredResult ByteString :=
  let size := shred.dataHeader.size.toNat
  if shred.payload.length < size ∨ size < sizeOfDataShredHeaders ∨
      sizeOfDataShredHeaders + bufferSize < size then
    fail (.invalidDataSize size shred.payload.length)
  else .ok ((shred.payload.take size).drop sizeOfDataShredHeaders)

/-- `shred_data::sanitize` for a kind of data shreds. -/
def sanitizeAs (sizeOfPayload : Nat) (data erasureShard : ShredResult ByteString) :
    ShredResult Unit := do
  if shred.payload.length ≠ sizeOfPayload then fail (.invalidPayloadSize shred.payload.length)
  else if maxDataShredsPerSlot ≤ shred.commonHeader.index.toNat then
    fail (.invalidShredIndex .data shred.commonHeader.index.toNat)
  else if shred.dataHeader.flags.intersects ShredFlags.lastShredInSlot &&
      !shred.dataHeader.flags.contains ShredFlags.dataCompleteShred then
    fail (.invalidShredFlags shred.dataHeader.flags)
  else
    let _ ← data
    let _ ← shred.parent
    let _ ← shred.erasureShardIndex
    let _ ← erasureShard
    return ()

end ShredData

namespace LegacyData

def sizeOfPayload : Nat := 1228
def capacity : Nat := sizeOfPayload - sizeOfDataShredHeaders - sizeOfCodingShredHeaders

def data (shred : ShredData) : ShredResult ByteString := shred.dataWithin capacity

def erasureShardAsSlice (shred : ShredData) : ShredResult ByteString :=
  if shred.payload.length ≠ sizeOfPayload then fail (.invalidPayloadSize shred.payload.length)
  else .ok (shred.payload.take (sizeOfPayload - sizeOfCodingShredHeaders))

def sanitize (shred : ShredData) : ShredResult Unit :=
  if shred.commonHeader.shredVariant ≠ .legacyData then fail .invalidShredVariant
  else shred.sanitizeAs sizeOfPayload (data shred) (erasureShardAsSlice shred)

/-- All of the payload past the signature is signed. -/
def signedData (shred : ShredData) : ShredResult ByteString := do
  assertOrPanic (shred.payload.length = sizeOfPayload)
  return shred.payload.drop sizeOfShredSignature

def fromPayload (payload : ByteString) : ShredResult ShredData := do
  let commonHeader ← ShredCommonHeader.deserialize payload
  if commonHeader.shredVariant ≠ .legacyData then fail .invalidShredVariant
  else
    let dataHeader ← DataShredHeader.deserialize payload
    -- shreds stored to the blockstore may have trailing zeros trimmed
    if payload.length < sizeOfDataShredHeaders then fail (.invalidPayloadSize payload.length)
    else
      let shred : ShredData := ⟨commonHeader, dataHeader, resize payload sizeOfPayload⟩
      sanitize shred
      return shred

end LegacyData

namespace MerkleData

def sizeOfPayload : Nat := MerkleLayout.data.sizeOfPayload

def capacity : UInt8 → Bool → Bool → ShredResult Nat := MerkleLayout.data.capacity

def data (shred : ShredData) : ShredResult ByteString := do
  let (proofSize, chained, resigned) ←
    MerkleLayout.data.variantParameters shred.commonHeader.shredVariant
  let bufferSize ← capacity proofSize chained resigned
  shred.dataWithin bufferSize

def erasureShardAsSlice (shred : ShredData) : ShredResult ByteString :=
  MerkleLayout.data.erasureShardAsSlice shred.commonHeader.shredVariant shred.payload

def merkleProof (shred : ShredData) : ShredResult (List ByteString) :=
  MerkleLayout.data.merkleProof shred.commonHeader.shredVariant shred.payload

def merkleRoot (hash : HashFunction) (shred : ShredData) : ShredResult Digest :=
  MerkleLayout.data.merkleRoot hash shred.commonHeader.shredVariant shred.payload
    shred.erasureShardIndex

def sanitize (shred : ShredData) : ShredResult Unit := do
  let _ ← MerkleLayout.data.variantParameters shred.commonHeader.shredVariant
  let _ ← merkleProof shred
  shred.sanitizeAs sizeOfPayload (data shred) (erasureShardAsSlice shred)

def fromPayload (payload : ByteString) : ShredResult ShredData := do
  if payload.length < sizeOfPayload then fail (.invalidPayloadSize payload.length)
  else
    let payload := payload.take sizeOfPayload
    let commonHeader ← ShredCommonHeader.deserialize payload
    let _ ← MerkleLayout.data.variantParameters commonHeader.shredVariant
    let dataHeader ← DataShredHeader.deserialize payload
    let shred : ShredData := ⟨commonHeader, dataHeader, payload⟩
    sanitize shred
    return shred

end MerkleData

/-! ## Coding shreds -/

def checkedAddU32 (a b : Nat) : Option Nat := if a + b ≤ u32Max then some (a + b) else none

namespace ShredCode

variable (shred : ShredCode)

def firstCodingIndex : Option Nat :=
  checkedSub shred.commonHeader.index.toNat shred.codingHeader.position.toNat

/-- `shred_code::erasure_shard_index`: the last indices of the erasure set are in bounds too. -/
def shardIndex? : Option Nat := do
  let numDataShreds := shred.codingHeader.numDataShreds.toNat
  let numCodingShreds := shred.codingHeader.numCodingShreds.toNat
  let lastData ← checkedAddU32 shred.commonHeader.fecSetIndex.toNat (← checkedSub numDataShreds 1)
  guard (lastData < maxDataShredsPerSlot)
  let lastCode ← checkedAddU32 (← shred.firstCodingIndex) (← checkedSub numCodingShreds 1)
  guard (lastCode < maxCodeShredsPerSlot)
  let index := shred.codingHeader.position.toNat + numDataShreds
  if index < numDataShreds + numCodingShreds then some index else none

def erasureShardIndex : ShredResult Nat :=
  orFail .invalidErasureShardIndex shred.shardIndex?

/-- `shred_code::sanitize` for a kind of coding shreds. -/
def sanitizeAs (sizeOfPayload : Nat) (erasureShard : ShredResult ByteString) :
    ShredResult Unit := do
  if shred.payload.length ≠ sizeOfPayload then fail (.invalidPayloadSize shred.payload.length)
  else if maxCodeShredsPerSlot ≤ shred.commonHeader.index.toNat then
    fail (.invalidShredIndex .code shred.commonHeader.index.toNat)
  else if 8 * dataShredsPerFecBlock < shred.codingHeader.numCodingShreds.toNat then
    fail (.invalidNumCodingShreds shred.codingHeader.numCodingShreds.toNat)
  else
    let _ ← shred.erasureShardIndex
    let _ ← erasureShard
    return ()

end ShredCode

namespace LegacyCode

def sizeOfPayload : Nat := 1228

def erasureShardAsSlice (shred : ShredCode) : ShredResult ByteString :=
  if shred.payload.length ≠ sizeOfPayload then fail (.invalidPayloadSize shred.payload.length)
  else .ok (shred.payload.drop sizeOfCodingShredHeaders)

def sanitize (shred : ShredCode) : ShredResult Unit :=
  if shred.commonHeader.shredVariant ≠ .legacyCode then fail .invalidShredVariant
  else shred.sanitizeAs sizeOfPayload (erasureShardAsSlice shred)

def signedData (shred : ShredCode) : ShredResult ByteString := do
  assertOrPanic (shred.payload.length = sizeOfPayload)
  return shred.payload.drop sizeOfShredSignature

def fromPayload (payload : ByteString) : ShredResult ShredCode := do
  let commonHeader ← ShredCommonHeader.deserialize payload
  if commonHeader.shredVariant ≠ .legacyCode then fail .invalidShredVariant
  else
    let codingHeader ← CodingShredHeader.deserialize payload
    -- repair packets have a nonce at the end of the payload
    let shred : ShredCode := ⟨commonHeader, codingHeader, payload.take sizeOfPayload⟩
    sanitize shred
    return shred

end LegacyCode

namespace MerkleCode

def sizeOfPayload : Nat := MerkleLayout.code.sizeOfPayload

def erasureShardAsSlice (shred : ShredCode) : ShredResult ByteString :=
  MerkleLayout.code.erasureShardAsSlice shred.commonHeader.shredVariant shred.payload

def merkleProof (shred : ShredCode) : ShredResult (List ByteString) :=
  MerkleLayout.code.merkleProof shred.commonHeader.shredVariant shred.payload

def merkleRoot (hash : HashFunction) (shred : ShredCode) : ShredResult Digest :=
  MerkleLayout.code.merkleRoot hash shred.commonHeader.shredVariant shred.payload
    shred.erasureShardIndex

def sanitize (shred : ShredCode) : ShredResult Unit := do
  let _ ← MerkleLayout.code.variantParameters shred.commonHeader.shredVariant
  let _ ← merkleProof shred
  shred.sanitizeAs sizeOfPayload (erasureShardAsSlice shred)

def fromPayload (payload : ByteString) : ShredResult ShredCode := do
  let commonHeader ← ShredCommonHeader.deserialize payload
  let _ ← MerkleLayout.code.variantParameters commonHeader.shredVariant
  let codingHeader ← CodingShredHeader.deserialize payload
  if payload.length < sizeOfPayload then fail (.invalidPayloadSize payload.length)
  else
    let shred : ShredCode := ⟨commonHeader, codingHeader, payload.take sizeOfPayload⟩
    sanitize shred
    return shred

end MerkleCode

/-! ## Shreds -/

inductive Shred where
  | legacyCode (shred : ShredCode)
  | merkleCode (shred : ShredCode)
  | legacyData (shred : ShredData)
  | merkleData (shred : ShredData)
deriving DecidableEq

inductive SignedData where
  | chunk (bytes : ByteString)
  | merkleRoot (root : Digest)
deriving DecidableEq

def SignedData.asRef : SignedData → ByteString
  | chunk bytes => bytes
  | merkleRoot root => root.1

structure ShredId where
  slot : Slot
  index : Nat
  shredType : ShredType
deriving Repr, DecidableEq

/-- `Signature::verify` of a public key, a signature and a message. -/
abbrev VerifySignature := Pubkey → Signature → ByteString → Bool

def layoutGetShredVariant (shred : ByteString) : ShredResult ShredVariant :=
  match shred[sizeOfShredSignature]? with
  | none => fail (.invalidPayloadSize shred.length)
  | some byte => orFail .invalidShredVariant (ShredVariant.ofByte byte)

namespace Shred

def newFromSerializedShred (bytes : ByteString) : ShredResult Shred := do
  match ← layoutGetShredVariant bytes with
  | .legacyCode => return .legacyCode (← LegacyCode.fromPayload bytes)
  | .legacyData => return .legacyData (← LegacyData.fromPayload bytes)
  | .merkleCode .. => return .merkleCode (← MerkleCode.fromPayload bytes)
  | .merkleData .. => return .merkleData (← MerkleData.fromPayload bytes)

def commonHeader : Shred → ShredCommonHeader
  | legacyCode shred | merkleCode shred => shred.commonHeader
  | legacyData shred | merkleData shred => shred.commonHeader

def merkleRoot (hash : HashFunction) : Shred → ShredResult Digest
  | legacyCode _ | legacyData _ => fail .invalidShredType
  | merkleCode shred => MerkleCode.merkleRoot hash shred
  | merkleData shred => MerkleData.merkleRoot hash shred

def signedData (hash : HashFunction) : Shred → ShredResult SignedData
  | legacyCode shred => return .chunk (← LegacyCode.signedData shred)
  | merkleCode shred => return .merkleRoot (← MerkleCode.merkleRoot hash shred)
  | legacyData shred => return .chunk (← LegacyData.signedData shred)
  | merkleData shred => return .merkleRoot (← MerkleData.merkleRoot hash shred)

def referenceTick : Shred → UInt8
  | legacyCode _ | merkleCode _ => ShredFlags.shredTickReferenceMask
  | legacyData shred | merkleData shred => shred.referenceTick

variable (shred : Shred)

def slot : Slot := shred.commonHeader.slot.toNat
def index : Nat := shred.commonHeader.index.toNat
def version : UInt16 := shred.commonHeader.version
def signature : Signature := shred.commonHeader.signature
def shredType : ShredType := shred.commonHeader.shredVariant.shredType
def id : ShredId := ⟨shred.slot, shred.index, shred.shredType⟩
def verify (hash : HashFunction) (verifySignature : VerifySignature) (pubkey : Pubkey) : Bool :=
  match shred.signedData hash with
  | .ok data => verifySignature pubkey shred.signature data.asRef
  | .error _ => false

end Shred

/-! ## Zero-copy accessors -/

namespace ShredLayout

def getSignature (shred : ByteString) : Option Signature := signatureAt shred 0

def getShredVariant (shred : ByteString) : ShredResult ShredVariant := layoutGetShredVariant shred

def getShredType (shred : ByteString) : ShredResult ShredType := do
  let variant ← getShredVariant shred
  return variant.shredType

def getSlot (shred : ByteString) : Option Slot := (u64At shred 65).map UInt64.toNat
def getIndex (shred : ByteString) : Option Nat := (u32At shred 73).map UInt32.toNat
def getVersion (shred : ByteString) : Option UInt16 := u16At shred 77

def getShredId (shred : ByteString) : Option ShredId := do
  let slot ← getSlot shred
  let index ← getIndex shred
  let shredType ← (getShredType shred).ok?
  some ⟨slot, index, shredType⟩

def getReferenceTick (shred : ByteString) : ShredResult UInt8 := do
  if (← getShredType shred) ≠ .data then fail .invalidShredType
  else match shred[85]? with
    | none => fail (.invalidPayloadSize shred.length)
    | some flags => return flags &&& ShredFlags.shredTickReferenceMask

/-- The root of a Merkle shred's bytes at an index in its erasure batch. -/
def merkleRootAt (hash : HashFunction) (layout : MerkleLayout) (shred : ByteString)
    (proofSize : UInt8) (chained resigned : Bool) (index : Option Nat) : Option Digest := do
  let index ← index
  let proofOffset ← (layout.getProofOffset proofSize chained resigned).ok?
  let proof ← (getMerkleProof shred proofOffset proofSize).ok?
  let node ← (getMerkleNode hash shred sizeOfShredSignature proofOffset).ok?
  (Nuah.getMerkleRoot hash index node proof).ok?

/-- `merkle::ShredData::get_merkle_root`. -/
def dataMerkleRoot (hash : HashFunction) (shred : ByteString) (proofSize : UInt8)
    (chained resigned : Bool) : Option Digest :=
  merkleRootAt hash .data shred proofSize chained resigned do
    let fecSetIndex ← u32At shred 79
    let index ← getIndex shred
    checkedSub index fecSetIndex.toNat

/-- `merkle::ShredCode::get_merkle_root`. -/
def codeMerkleRoot (hash : HashFunction) (shred : ByteString) (proofSize : UInt8)
    (chained resigned : Bool) : Option Digest :=
  merkleRootAt hash .code shred proofSize chained resigned do
    let numDataShreds ← u16At shred 83
    let position ← u16At shred 87
    some (numDataShreds.toNat + position.toNat)

def getMerkleRoot (hash : HashFunction) (shred : ByteString) : Option Digest := do
  match ← (getShredVariant shred).ok? with
  | .legacyCode | .legacyData => none
  | .merkleCode proofSize chained resigned => codeMerkleRoot hash shred proofSize chained resigned
  | .merkleData proofSize chained resigned => dataMerkleRoot hash shred proofSize chained resigned

def getSignedData (hash : HashFunction) (shred : ByteString) : Option SignedData := do
  match ← (getShredVariant shred).ok? with
  | .legacyCode | .legacyData =>
    let chunk ← slice shred sizeOfShredSignature LegacyData.sizeOfPayload
    some (.chunk chunk)
  | .merkleCode proofSize chained resigned =>
    let root ← codeMerkleRoot hash shred proofSize chained resigned
    some (.merkleRoot root)
  | .merkleData proofSize chained resigned =>
    let root ← dataMerkleRoot hash shred proofSize chained resigned
    some (.merkleRoot root)

/-- Signature verification of the bytes of a packet. -/
def verify (hash : HashFunction) (verifySignature : VerifySignature) (pubkey : Pubkey)
    (shred : ByteString) : Bool :=
  match getSignature shred, getSignedData hash shred with
  | some signature, some data => verifySignature pubkey signature data.asRef
  | _, _ => false

end ShredLayout

end Nuah
