import Nuah.ShortVec

/-!
# Versioned transactions

The wire format of transactions. A derived `Serialize` or `Deserialize` is the fields in their
order; a message is told from its first byte.
-/

namespace Nuah

open ByteStrings Codecs ShortVec Codec

abbrev KeyBytes := FixedBytes 32
abbrev HashBytes := FixedBytes 32
abbrev SignatureBytes := FixedBytes 64

structure MessageHeader where
  numRequiredSignatures : UInt8
  numReadonlySignedAccounts : UInt8
  numReadonlyUnsignedAccounts : UInt8
deriving Repr, DecidableEq

structure CompiledInstruction where
  programIdIndex : UInt8
  accounts : List UInt8
  data : List UInt8
deriving Repr, DecidableEq

structure MessageAddressTableLookup where
  accountKey : KeyBytes
  writableIndexes : List UInt8
  readonlyIndexes : List UInt8
deriving Repr, DecidableEq

structure LegacyMessage where
  header : MessageHeader
  accountKeys : List KeyBytes
  recentBlockhash : HashBytes
  instructions : List CompiledInstruction
deriving Repr, DecidableEq

structure MessageV0 where
  header : MessageHeader
  accountKeys : List KeyBytes
  recentBlockhash : HashBytes
  instructions : List CompiledInstruction
  addressTableLookups : List MessageAddressTableLookup
deriving Repr, DecidableEq

inductive VersionedMessage where
  | legacy (message : LegacyMessage)
  | v0 (message : MessageV0)
deriving Repr, DecidableEq

structure VersionedTransaction where
  signatures : List SignatureBytes
  message : VersionedMessage
deriving Repr, DecidableEq

def MessageHeader.codec : Codec MessageHeader :=
  (byte.pair (byte.pair byte)).map
    (fun (required, readonlySigned, readonlyUnsigned) =>
      ⟨required, readonlySigned, readonlyUnsigned⟩)
    (fun header => (header.numRequiredSignatures, header.numReadonlySignedAccounts,
      header.numReadonlyUnsignedAccounts))
    (fun _ => rfl)

def CompiledInstruction.codec : Codec CompiledInstruction :=
  (byte.pair ((shortVec byte).pair (shortVec byte))).map
    (fun (programIdIndex, accounts, data) => ⟨programIdIndex, accounts, data⟩)
    (fun instruction => (instruction.programIdIndex, instruction.accounts, instruction.data))
    (fun _ => rfl)

def MessageAddressTableLookup.codec : Codec MessageAddressTableLookup :=
  ((array 32).pair ((shortVec byte).pair (shortVec byte))).map
    (fun (accountKey, writableIndexes, readonlyIndexes) =>
      ⟨accountKey, writableIndexes, readonlyIndexes⟩)
    (fun lookup => (lookup.accountKey, lookup.writableIndexes, lookup.readonlyIndexes))
    (fun _ => rfl)

def messageBody : Codec (List KeyBytes × HashBytes × List CompiledInstruction) :=
  (shortVec (array 32)).pair ((array 32).pair (shortVec CompiledInstruction.codec))

def LegacyMessage.codec : Codec LegacyMessage :=
  (MessageHeader.codec.pair messageBody).map
    (fun (header, accountKeys, recentBlockhash, instructions) =>
      ⟨header, accountKeys, recentBlockhash, instructions⟩)
    (fun message =>
      (message.header, message.accountKeys, message.recentBlockhash, message.instructions))
    (fun _ => rfl)

def MessageV0.codec : Codec MessageV0 :=
  (MessageHeader.codec.pair (messageBody.pair (shortVec MessageAddressTableLookup.codec))).map
    (fun (header, (accountKeys, recentBlockhash, instructions), addressTableLookups) =>
      ⟨header, accountKeys, recentBlockhash, instructions, addressTableLookups⟩)
    (fun message => (message.header,
      (message.accountKeys, message.recentBlockhash, message.instructions),
      message.addressTableLookups))
    (fun _ => rfl)

def messageVersionPrefix : UInt8 := 0x80

inductive MessagePrefix where
  | legacy (numRequiredSignatures : UInt8)
  | versioned (version : UInt8)
deriving Repr, DecidableEq

def MessagePrefix.ofByte (byte : UInt8) : MessagePrefix :=
  if byte &&& messageVersionPrefix ≠ 0 then .versioned (byte &&& ~~~messageVersionPrefix)
  else .legacy byte

namespace VersionedMessage

def header : VersionedMessage → MessageHeader
  | .legacy message => message.header
  | .v0 message => message.header

def staticAccountKeys : VersionedMessage → List KeyBytes
  | .legacy message => message.accountKeys
  | .v0 message => message.accountKeys

def instructions : VersionedMessage → List CompiledInstruction
  | .legacy message => message.instructions
  | .v0 message => message.instructions

def remainingLegacyMessage :
    Codec (UInt8 × UInt8 × List KeyBytes × HashBytes × List CompiledInstruction) :=
  byte.pair (byte.pair messageBody)

def write : VersionedMessage → Option ByteString
  | .legacy message => LegacyMessage.codec.write message
  | .v0 message => do
    let bytes ← MessageV0.codec.write message
    some (messageVersionPrefix :: bytes)

def read (input : ByteString) : Option (VersionedMessage × ByteString) := do
  let (byte, input) ← byte.read input
  match MessagePrefix.ofByte byte with
  | .legacy numRequiredSignatures => do
    let ((readonlySigned, readonlyUnsigned, accountKeys, recentBlockhash, instructions), rest) ←
      remainingLegacyMessage.read input
    some (.legacy ⟨⟨numRequiredSignatures, readonlySigned, readonlyUnsigned⟩, accountKeys,
      recentBlockhash, instructions⟩, rest)
  | .versioned version =>
    -- 127 is the version of off-chain messages; like all others but 0 it is refused
    if version = 0 then do
      let (message, rest) ← MessageV0.codec.read input
      some (.v0 message, rest)
    else none

lemma ofByte_eq_legacy {byte n : UInt8} (h : MessagePrefix.ofByte byte = .legacy n) :
    n = byte ∧ byte &&& messageVersionPrefix = 0 := by
  unfold MessagePrefix.ofByte at h
  split_ifs at h with hbit
  exact ⟨(MessagePrefix.legacy.inj h).symm, not_not.1 hbit⟩

lemma ofByte_eq_versioned_zero {byte : UInt8} (h : MessagePrefix.ofByte byte = .versioned 0) :
    byte = messageVersionPrefix := by
  revert byte
  have hbytes : ∀ n < 256, MessagePrefix.ofByte (UInt8.ofNat n) = .versioned 0 →
      UInt8.ofNat n = messageVersionPrefix := by decide +kernel
  intro byte h
  have hbyte := hbytes byte.toNat byte.toNat_lt
  rw [UInt8.ofNat_toNat] at hbyte
  exact hbyte h

lemma read_canonical {input rest : ByteString} {message : VersionedMessage}
    (h : read input = some (message, rest)) :
    ∃ bytes, message.write = some bytes ∧ input = bytes ++ rest := by
  obtain ⟨⟨byte, input₁⟩, hbyte, hmessage⟩ := Option.bind_eq_some_iff.1 h
  clear h
  obtain ⟨front, hfront, rfl⟩ := Codec.byte.canonical hbyte
  cases hfront
  dsimp only at hmessage
  split at hmessage
  · rename_i n hofByte
    obtain ⟨rfl, -⟩ := ofByte_eq_legacy hofByte
    obtain ⟨⟨⟨readonlySigned, readonlyUnsigned, body⟩, rest'⟩, hread, hmessage⟩ :=
      Option.bind_eq_some_iff.1 hmessage
    cases hmessage
    obtain ⟨bytes, hbytes, rfl⟩ := remainingLegacyMessage.canonical hread
    obtain ⟨b₁, bs₁, hb₁, hbs₁, rfl⟩ := write_pair_eq_some.1 hbytes
    obtain ⟨b₂, bs₂, hb₂, hbs₂, rfl⟩ := write_pair_eq_some.1 hbs₁
    cases hb₁
    cases hb₂
    exact ⟨n :: readonlySigned :: readonlyUnsigned :: bs₂,
      write_pair_eq_some.2 ⟨[n, readonlySigned, readonlyUnsigned], bs₂, rfl, hbs₂, rfl⟩, rfl⟩
  · rename_i version hofByte
    split_ifs at hmessage with hversion
    subst hversion
    obtain rfl := ofByte_eq_versioned_zero hofByte
    obtain ⟨⟨message, rest'⟩, hread, hmessage⟩ := Option.bind_eq_some_iff.1 hmessage
    cases hmessage
    obtain ⟨bytes, hbytes, rfl⟩ := MessageV0.codec.canonical hread
    exact ⟨messageVersionPrefix :: bytes, Option.bind_eq_some_iff.2 ⟨bytes, hbytes, rfl⟩, rfl⟩

def codec : Codec VersionedMessage where
  write := write
  read := read
  canonical := read_canonical

/-- Nothing for a message that `bincode` cannot serialize, where the source unwraps. -/
def serialize (message : VersionedMessage) : Option ByteString := codec.write message

end VersionedMessage

def VersionedTransaction.codec : Codec VersionedTransaction :=
  ((shortVec (array 64)).pair VersionedMessage.codec).map
    (fun (signatures, message) => ⟨signatures, message⟩)
    (fun tx => (tx.signatures, tx.message))
    (fun _ => rfl)

end Nuah
