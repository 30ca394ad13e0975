import Nuah.Proofs.PacketOffsets

/-!
# Where decoded transactions have their parts

The bytes of a packet that deserializes to a transaction are those of the transaction, one part
after the other. So the offsets of the packet are those of the parts.
-/

namespace Nuah.Proofs

open ByteStrings Codecs ShortVec Sigverify Codec VersionedMessage List Option

variable {bytes : ByteString} {header : Nat}

def headerFront : VersionedMessage → ByteString
  | .legacy _ => []
  | .v0 _ => [messageVersionPrefix]

/-- The instructions behind the keys and the blockhash, and what comes after them. -/
structure InstructionsLayout (message : VersionedMessage) (tail : ByteString) : Prop where
  short : message.instructions.length ≤ u16Max
  parts : ∃ (blockhash : HashBytes) (instructions rest : ByteString),
    CompiledInstruction.codec.writeAll message.instructions = some instructions ∧
      tail = blockhash.1 ++ (serializeShortU16 message.instructions.length ++ (instructions ++ rest))

structure MessageLayout (message : VersionedMessage) (bytes tail : ByteString) : Prop where
  short : message.staticAccountKeys.length ≤ u16Max
  parts : bytes = headerFront message ++ (message.header.numRequiredSignatures ::
    message.header.numReadonlySignedAccounts :: message.header.numReadonlyUnsignedAccounts ::
      (serializeShortU16 message.staticAccountKeys.length ++
        (message.staticAccountKeys.flatMap Subtype.val ++ tail)))
  instructions : InstructionsLayout message tail

lemma write_messageBody_eq_some {keys : List KeyBytes} {blockhash : HashBytes}
    {instructions : List CompiledInstruction}
    (h : messageBody.write (keys, blockhash, instructions) = some bytes) :
    keys.length ≤ u16Max ∧ instructions.length ≤ u16Max ∧
      ∃ back, CompiledInstruction.codec.writeAll instructions = some back ∧
        bytes = serializeShortU16 keys.length ++ (keys.flatMap Subtype.val ++
          (blockhash.1 ++ (serializeShortU16 instructions.length ++ back))) := by
  obtain ⟨keysBytes, rest, hkeys, hrest, rfl⟩ := write_pair_eq_some.1 h
  obtain ⟨hkeysLen, back, hback, rfl⟩ := write_shortVec_eq_some.1 hkeys
  obtain rfl := mem_unique (writeAll_array keys) hback
  obtain ⟨hashBytes, instructionBytes, hhash, hinstructions, rfl⟩ :=
    write_pair_eq_some.1 hrest
  cases hhash
  obtain ⟨hinstructionsLen, back, hback, rfl⟩ := write_shortVec_eq_some.1 hinstructions
  exact ⟨hkeysLen, hinstructionsLen, back, hback, by rw [append_assoc]⟩

lemma write_header_eq_some {header : MessageHeader}
    (h : MessageHeader.codec.write header = some bytes) :
    bytes = [header.numRequiredSignatures, header.numReadonlySignedAccounts,
      header.numReadonlyUnsignedAccounts] :=
  (Option.some.inj h).symm

lemma messageLayout_of_write {message : VersionedMessage} (h : message.serialize = some bytes) :
    ∃ tail, MessageLayout message bytes tail := by
  cases message with
  | legacy message =>
    obtain ⟨front, back, hfront, hback, rfl⟩ := write_pair_eq_some.1 h
    obtain rfl := write_header_eq_some hfront
    obtain ⟨hkeys, hinstructions, instructions, hwrite, rfl⟩ := write_messageBody_eq_some hback
    refine ⟨_, hkeys, rfl, hinstructions, message.recentBlockhash, instructions, [], hwrite, ?_⟩
    rw [append_nil]
    rfl
  | v0 message =>
    obtain ⟨bytes, hbytes, h⟩ := bind_eq_some_iff.1 h
    cases h
    obtain ⟨front, back, hfront, hback, rfl⟩ := write_pair_eq_some.1 hbytes
    obtain rfl := write_header_eq_some hfront
    obtain ⟨body, lookups, hbody, -, rfl⟩ := write_pair_eq_some.1 hback
    obtain ⟨hkeys, hinstructions, instructions, hwrite, rfl⟩ := write_messageBody_eq_some hbody
    refine ⟨_, hkeys, ?_, hinstructions, message.recentBlockhash, instructions, lookups, hwrite, rfl⟩
    simp only [headerFront, append_assoc, cons_append, nil_append]
    rfl

/-- The bytes are those of the transaction, with those of its message at their end. -/
structure DecodedAs (bytes : ByteString) (tx : VersionedTransaction) (message : ByteString) :
    Prop where
  short : tx.signatures.length ≤ u16Max
  parts : bytes = serializeShortU16 tx.signatures.length ++
    (tx.signatures.flatMap Subtype.val ++ message)
  serialized : tx.message.serialize = some message
  unversioned : ∀ legacy, tx.message = .legacy legacy →
    legacy.header.numRequiredSignatures &&& messageVersionPrefix = 0

lemma read_legacy {input rest : ByteString} {message : LegacyMessage}
    (h : read input = some (.legacy message, rest)) :
    message.header.numRequiredSignatures &&& messageVersionPrefix = 0 := by
  obtain ⟨⟨byte, input₁⟩, -, h⟩ := bind_eq_some_iff.1 h
  dsimp only at h
  split at h
  · rename_i n hofByte
    obtain ⟨rfl, hbit⟩ := ofByte_eq_legacy hofByte
    obtain ⟨⟨⟨readonlySigned, readonlyUnsigned, body⟩, rest'⟩, -, h⟩ :=
      bind_eq_some_iff.1 h
    obtain ⟨hmessage, -⟩ := Prod.mk.inj (Option.some.inj h)
    obtain rfl := legacy.inj hmessage
    exact hbit
  · split_ifs at h
    obtain ⟨_, -, h⟩ := bind_eq_some_iff.1 h
    cases h

lemma decodedAs_of_readAll {tx : VersionedTransaction}
    (h : VersionedTransaction.codec.readAll bytes = some tx) :
    ∃ message, DecodedAs bytes tx message := by
  have hwrite := VersionedTransaction.codec.readAll_canonical h
  obtain ⟨front, message, hfront, hmessage, rfl⟩ := write_pair_eq_some.1 hwrite
  obtain ⟨hshort, back, hback, rfl⟩ := write_shortVec_eq_some.1 hfront
  obtain rfl := mem_unique (writeAll_array tx.signatures) hback
  refine ⟨message, hshort, append_assoc _ _ _, hmessage, fun legacy hlegacy => ?_⟩
  unfold readAll at h
  split at h
  · rename_i tx' hread
    cases h
    obtain ⟨⟨⟨signatures, decoded⟩, rest⟩, hpair, htx⟩ := map_eq_some_iff.1 hread
    obtain ⟨⟨signatures', input⟩, -, hpair⟩ := bind_eq_some_iff.1 hpair
    obtain ⟨⟨decoded', rest'⟩, hdecoded, hpair⟩ := bind_eq_some_iff.1 hpair
    obtain ⟨hsame, rfl⟩ := Prod.mk.inj (Option.some.inj hpair)
    obtain ⟨rfl, rfl⟩ := Prod.mk.inj hsame
    obtain ⟨rfl, -⟩ := Prod.mk.inj htx
    obtain rfl : decoded' = .legacy legacy := hlegacy
    exact read_legacy hdecoded
  · cases h

section

variable (tx : VersionedTransaction)

def headerOffset : Nat :=
  tx.signatures.length * sizeOfSignature + (serializeShortU16 tx.signatures.length).length +
    (headerFront tx.message).length

def txOffsets : PacketOffsets where
  sigLen := tx.signatures.length
  sigStart := (serializeShortU16 tx.signatures.length).length
  msgStart := tx.signatures.length * sizeOfSignature +
    (serializeShortU16 tx.signatures.length).length
  pubkeyStart := headerOffset tx + messageHeaderLength +
    (serializeShortU16 tx.message.staticAccountKeys.length).length
  pubkeyLen := tx.message.staticAccountKeys.length

/-- The numbers of signatures and keys are as the header says, and the first signer can pay. -/
def SignersMatch : Prop :=
  tx.signatures.length = tx.message.header.numRequiredSignatures.toNat ∧
    tx.signatures.length ≤ tx.message.staticAccountKeys.length ∧
    tx.message.header.numReadonlySignedAccounts < tx.message.header.numRequiredSignatures

end

variable {message tail : ByteString} {tx : VersionedTransaction}

namespace DecodedAs

section

variable (h : DecodedAs bytes tx message)

include h

lemma decode_signatures :
    decodeShortu16Len bytes = some ((txOffsets tx).sigLen, (txOffsets tx).sigStart) := by
  rw [h.parts]
  exact decodeShortu16Len_serialize h.short _

lemma drop_sigStart :
    bytes.drop (txOffsets tx).sigStart = tx.signatures.flatMap Subtype.val ++ message := by
  rw [h.parts]
  exact drop_left

lemma drop_msgStart : bytes.drop (txOffsets tx).msgStart = message := by
  have hstart : (txOffsets tx).msgStart = (txOffsets tx).sigStart +
      (tx.signatures.flatMap Subtype.val).length := by
    rw [length_flatMap_val]
    change _ * 64 + _ = _ + 64 * _
    rw [Nat.mul_comm, Nat.add_comm]
    rfl
  rw [hstart, ← drop_drop, h.drop_sigStart, drop_left]

section

variable (hlayout : MessageLayout tx.message message tail)

include hlayout

lemma drop_header :
    bytes.drop (headerOffset tx) = tx.message.header.numRequiredSignatures ::
      tx.message.header.numReadonlySignedAccounts ::
      tx.message.header.numReadonlyUnsignedAccounts ::
      (serializeShortU16 tx.message.staticAccountKeys.length ++
        (tx.message.staticAccountKeys.flatMap Subtype.val ++ tail)) := by
  have hstart : headerOffset tx = (txOffsets tx).msgStart + (headerFront tx.message).length := rfl
  rw [hstart, ← drop_drop, h.drop_msgStart, hlayout.parts, drop_left]

lemma drop_keysLen :
    bytes.drop (headerOffset tx + messageHeaderLength) =
      serializeShortU16 tx.message.staticAccountKeys.length ++
        (tx.message.staticAccountKeys.flatMap Subtype.val ++ tail) := by
  rw [← drop_drop, h.drop_header hlayout]
  rfl

lemma drop_pubkeyStart :
    bytes.drop (txOffsets tx).pubkeyStart =
      tx.message.staticAccountKeys.flatMap Subtype.val ++ tail := by
  change bytes.drop (headerOffset tx + messageHeaderLength + _) = _
  rw [← drop_drop, h.drop_keysLen hlayout, drop_left]

lemma headerAt : HeaderAt bytes (txOffsets tx).msgStart (headerOffset tx) := by
  have hfirst : bytes[(txOffsets tx).msgStart]? = message[0]? := by
    rw [← h.drop_msgStart, getElem?_drop, Nat.add_zero]
  rw [HeaderAt, hfirst, hlayout.parts]
  cases hmessage : tx.message with
  | legacy legacy =>
    refine ⟨_, rfl, .inr ⟨h.unversioned legacy hmessage, ?_⟩⟩
    rw [headerOffset, hmessage]
    rfl
  | v0 message =>
    refine ⟨_, rfl, .inl ⟨by decide, by decide, ?_⟩⟩
    rw [headerOffset, hmessage]
    rfl

end

end

end DecodedAs

lemma HeaderAt.unique {msgStart header' : Nat} (h : HeaderAt bytes msgStart header)
    (h' : HeaderAt bytes msgStart header') : header = header' := by
  obtain ⟨first, hfirst, h⟩ := h
  obtain ⟨first', hfirst', h'⟩ := h'
  obtain rfl := mem_unique hfirst hfirst'
  rcases h with ⟨hbit, -, rfl⟩ | ⟨hbit, rfl⟩ <;> rcases h' with ⟨hbit', -, rfl⟩ | ⟨hbit', rfl⟩
  · rfl
  · exact absurd hbit' hbit
  · exact absurd hbit hbit'
  · rfl

/-- The offsets of a decoded packet are those of its transaction, and they are computed if the
signers match. -/
lemma located_iff (h : DecodedAs bytes tx message) {offsets : PacketOffsets} :
    Located bytes header offsets ↔
      header = headerOffset tx ∧ offsets = txOffsets tx ∧ SignersMatch tx := by
  obtain ⟨tail, hlayout⟩ := messageLayout_of_write h.serialized
  have hheader := h.drop_header hlayout
  have hrequired : bytes[headerOffset tx]? = some tx.message.header.numRequiredSignatures := by
    rw [← Nat.add_zero (headerOffset tx), ← getElem?_drop, hheader]
    rfl
  have hreadonly : bytes[headerOffset tx + 1]? =
      some tx.message.header.numReadonlySignedAccounts := by
    rw [← getElem?_drop, hheader]
    rfl
  have hkeys : decodeShortu16Len (bytes.drop (headerOffset tx + messageHeaderLength)) =
      some (tx.message.staticAccountKeys.length,
        (serializeShortU16 tx.message.staticAccountKeys.length).length) := by
    rw [h.drop_keysLen hlayout]
    exact decodeShortu16Len_serialize hlayout.short _
  constructor
  · intro hlocated
    obtain ⟨sigLen, sigStart, msgStart, pubkeyStart, pubkeyLen⟩ := offsets
    obtain ⟨rfl, rfl⟩ := Prod.mk.inj
      (mem_unique hlocated.signatures h.decode_signatures)
    obtain rfl : msgStart = (txOffsets tx).msgStart := hlocated.message
    obtain rfl := hlocated.headerAt.unique (h.headerAt hlayout)
    obtain ⟨-, required, readonlySigned, hrequired', hreadonly', hlt, hlen⟩ := hlocated.required
    obtain rfl := mem_unique hrequired hrequired'
    obtain rfl := mem_unique hreadonly hreadonly'
    obtain ⟨-, size, hkeys', hstart⟩ := hlocated.keys
    obtain ⟨rfl, rfl⟩ := Prod.mk.inj (mem_unique hkeys hkeys')
    obtain rfl : pubkeyStart = (txOffsets tx).pubkeyStart := hstart
    exact ⟨rfl, rfl, hlen, hlocated.enough, hlt⟩
  · rintro ⟨rfl, rfl, hlen, henough, hlt⟩
    have hpos : 0 < tx.signatures.length := by
      rw [hlen]
      exact (Nat.zero_le _).trans_lt (UInt8.lt_iff_toNat_lt.1 hlt)
    have hlength : bytes.length = (serializeShortU16 tx.signatures.length).length +
        (64 * tx.signatures.length + message.length) := by
      rw [h.parts, length_append, length_append, length_flatMap_val]
    have hsizePos := length_serializeShortU16_pos tx.signatures.length
    have hkeysLen := congrArg List.length (h.drop_pubkeyStart hlayout)
    rw [length_drop, length_append, length_flatMap_val] at hkeysLen
    have hheaderLen := congrArg List.length hheader
    rw [length_drop, length_cons, length_cons, length_cons, length_append]
      at hheaderLen
    have hkeysPos := length_serializeShortU16_pos tx.message.staticAccountKeys.length
    have hstart : (txOffsets tx).pubkeyStart = headerOffset tx + 3 +
      (serializeShortU16 tx.message.staticAccountKeys.length).length := rfl
    refine ⟨?_, h.decode_signatures, rfl, h.headerAt hlayout,
      ⟨?_, _, _, hrequired, hreadonly, hlt, hlen⟩, ⟨?_, _, hkeys, rfl⟩, henough⟩
    · change 1 + 64 ≤ _
      omega
    · change headerOffset tx + 1 + 3 ≤ _
      omega
    · change tx.message.staticAccountKeys.length * 32 + (txOffsets tx).pubkeyStart ≤ _
      omega

end Nuah.Proofs
