import Nuah.Proofs.DecodedPackets

/-!
# What the verification of a packet verifies

The signatures, keys and messages that are verified are those of the transaction that the packet
decodes to, and a packet is taken for a simple vote if its transaction is one.
-/

namespace Nuah.Proofs

open ByteStrings Codecs ShortVec Sigverify PacketFlags List

variable {voteProgramId : KeyBytes} {verify : SignatureBytes → ByteString → ByteString → Bool}
variable {packet : Packet} {bytes message : ByteString} {tx : VersionedTransaction}

variable {currentOffset msgStart sigStart pubkeyStart i : Nat} {instruction : CompiledInstruction}
  {offsets : PacketOffsets}
  {key : KeyBytes}

lemma forall_byte {P : UInt8 → Prop} (h : ∀ n < 256, P (UInt8.ofNat n)) (byte : UInt8) : P byte := by
  have hbyte := h byte.toNat byte.toNat_lt
  rwa [UInt8.ofNat_toNat] at hbyte

lemma discard_setSimpleVoteTx (packet : Packet) :
    packet.setSimpleVoteTx.packetMeta.discard = packet.packetMeta.discard := by
  have hflags : ∀ flags : UInt8, ((flags ||| simpleVoteTx) &&& discard) =
      flags &&& discard := forall_byte (by decide +kernel)
  unfold PacketMeta.discard
  rw [← hflags packet.packetMeta.flags]
  rfl

lemma isSimpleVoteTx_setSimpleVoteTx (packet : Packet) :
    packet.setSimpleVoteTx.packetMeta.isSimpleVoteTx = true := by
  have hflags : ∀ flags : UInt8,
      ((flags ||| simpleVoteTx) &&& simpleVoteTx) =
        simpleVoteTx := forall_byte (by decide +kernel)
  exact beq_iff_eq.2 (hflags packet.packetMeta.flags)

lemma data_setSimpleVoteTx (packet : Packet) : packet.setSimpleVoteTx.data = packet.data := by
  unfold Packet.data
  rw [discard_setSimpleVoteTx]
  rfl

def flagged (voteProgramId : KeyBytes) (packet : Packet) (offsets : PacketOffsets) : Packet :=
  match checkForSimpleVoteTransaction voteProgramId packet offsets 0 with
  | .ok checked => checked
  | .error _ => packet

lemma checkForSimpleVoteTransaction_eq_ok {checked : Packet}
    (h : checkForSimpleVoteTransaction voteProgramId packet offsets currentOffset = .ok checked) :
    checked = packet ∨ checked = packet.setSimpleVoteTx := by
  obtain ⟨_, -, h⟩ := bind_eq_ok.1 h
  obtain ⟨msgStart, -, h⟩ := bind_eq_ok.1 h
  obtain ⟨first, -, h⟩ := bind_eq_ok.1 h
  split_ifs at h
  · exact .inl (Except.ok.inj h).symm
  · obtain ⟨pubkeyStart, -, h⟩ := bind_eq_ok.1 h
    obtain ⟨program, -, h⟩ := bind_eq_ok.1 h
    cases h
    split_ifs
    · exact .inr rfl
    · exact .inl rfl

lemma flagged_eq (voteProgramId : KeyBytes) (packet : Packet) (offsets : PacketOffsets) :
    flagged voteProgramId packet offsets = packet ∨
      flagged voteProgramId packet offsets = packet.setSimpleVoteTx := by
  unfold flagged
  cases hcheck : checkForSimpleVoteTransaction voteProgramId packet offsets 0 with
  | error e => exact .inl rfl
  | ok checked => exact checkForSimpleVoteTransaction_eq_ok hcheck

lemma data_flagged (voteProgramId : KeyBytes) (packet : Packet) (offsets : PacketOffsets) :
    (flagged voteProgramId packet offsets).data = packet.data := by
  rcases flagged_eq voteProgramId packet offsets with h | h
  · rw [h]
  · rw [h, data_setSimpleVoteTx]

lemma size_flagged (voteProgramId : KeyBytes) (packet : Packet) (offsets : PacketOffsets) :
    (flagged voteProgramId packet offsets).packetMeta.size = packet.packetMeta.size := by
  rcases flagged_eq voteProgramId packet offsets with h | h
  · rw [h]
  · rw [h]
    rfl

lemma checkForSimpleVoteTransaction_shift (offsets : PacketOffsets) (currentOffset : Nat) :
    checkForSimpleVoteTransaction voteProgramId packet (shiftOffsets currentOffset offsets)
        currentOffset =
      checkForSimpleVoteTransaction voteProgramId packet offsets 0 := by
  have hsub : ∀ n, checkedSub (currentOffset + n) currentOffset = checkedSub n 0 := by
    intro n
    rw [checkedSub_eq_some.2 ⟨Nat.le_add_right _ n, rfl⟩,
      checkedSub_eq_some.2 ⟨Nat.zero_le n, rfl⟩, Nat.add_sub_cancel_left, Nat.sub_zero]
  unfold checkForSimpleVoteTransaction shiftOffsets
  simp only [hsub]

lemma getPacketOffsets_of_error {e : PacketError} (h : offsetsInPacket packet = .error e)
    (rejectNonVote : Bool) :
    getPacketOffsets voteProgramId packet currentOffset rejectNonVote =
      (⟨0, 0, 0, 0, 0⟩, packet) := by
  rw [getPacketOffsets, doGetPacketOffsets, h]
  rfl

lemma getPacketOffsets_of_ok (h : offsetsInPacket packet = .ok offsets)
    (hfits : currentOffset + packetDataSize ≤ u32Max) (rejectNonVote : Bool) :
    getPacketOffsets voteProgramId packet currentOffset rejectNonVote =
      if !rejectNonVote || (flagged voteProgramId packet offsets).packetMeta.isSimpleVoteTx then
        (shiftOffsets currentOffset offsets, flagged voteProgramId packet offsets)
      else (⟨0, 0, 0, 0, 0⟩, flagged voteProgramId packet offsets) := by
  have hshifted : doGetPacketOffsets packet currentOffset =
      .ok (shiftOffsets currentOffset offsets) := by
    rw [doGetPacketOffsets_eq hfits, h]
    rfl
  unfold getPacketOffsets
  rw [hshifted]
  dsimp only
  rw [checkForSimpleVoteTransaction_shift]
  rfl

lemma shiftOffsets_zero (offsets : PacketOffsets) : shiftOffsets 0 offsets = offsets := by
  simp [shiftOffsets]

lemma getPacketOffsets_accept (h : offsetsInPacket packet = .ok offsets) :
    getPacketOffsets voteProgramId packet 0 false =
      (offsets, flagged voteProgramId packet offsets) := by
  have hall := @getPacketOffsets_of_ok voteProgramId packet 0 offsets h (by decide) false
  rw [Bool.not_false, Bool.true_or, if_pos rfl, shiftOffsets_zero] at hall
  exact hall

/-- A signature, with the key and the message that it is verified with. -/
structure SignatureCheck where
  signature : ByteString
  pubkey : ByteString
  message : ByteString

def SignatureCheck.passes (verify : SignatureBytes → ByteString → ByteString → Bool)
    (check : SignatureCheck) : Bool :=
  if h : check.signature.length = sizeOfSignature then
    verify ⟨check.signature, h⟩ check.pubkey check.message
  else false

def checkAt (bytes : ByteString) (msgStart sigStart pubkeyStart i : Nat) : SignatureCheck where
  signature := (bytes.drop (sigStart + sizeOfSignature * i)).take sizeOfSignature
  pubkey := (bytes.drop (pubkeyStart + sizeOfPubkey * i)).take sizeOfPubkey
  message := bytes.drop msgStart

lemma checkAt_succ (bytes : ByteString) (msgStart sigStart pubkeyStart i : Nat) :
    checkAt bytes msgStart sigStart pubkeyStart (i + 1) =
      checkAt bytes msgStart (sigStart + sizeOfSignature) (pubkeyStart + sizeOfPubkey) i := by
  simp only [checkAt, Nat.mul_succ, Nat.add_assoc, Nat.add_comm]

lemma verifySignature_eq (hdata : packet.data = some bytes) (hmsg : msgStart ≤ bytes.length)
    (hsig : sigStart + sizeOfSignature ≤ bytes.length)
    (hkey : pubkeyStart + sizeOfPubkey ≤ bytes.length) :
    verifySignature verify packet msgStart sigStart (sigStart + sizeOfSignature) pubkeyStart
        (pubkeyStart + sizeOfPubkey) =
      some ((checkAt bytes msgStart sigStart pubkeyStart 0).passes verify) := by
  have hlength : ((bytes.drop sigStart).take sizeOfSignature).length = sizeOfSignature := by
    rw [length_take, length_drop]
    omega
  unfold verifySignature SignatureCheck.passes checkAt
  rw [dataRange_eq hdata hsig, dataRange_eq hdata hkey, dataFrom_eq hdata hmsg]
  simp only [Nat.mul_zero, Nat.add_zero, dif_pos hlength]
  exact dif_pos hlength

lemma verifySignatures_eq_true (hdata : packet.data = some bytes) {left : Nat}
    (hmsg : msgStart ≤ bytes.length) (hsig : sigStart + sizeOfSignature * left ≤ bytes.length)
    (hkey : pubkeyStart + sizeOfPubkey * left ≤ bytes.length) :
    verifySignatures verify packet msgStart left sigStart pubkeyStart = true ↔
      ∀ i < left, (checkAt bytes msgStart sigStart pubkeyStart i).passes verify = true := by
  obtain ⟨-, -, -, hsize⟩ := data_eq_some hdata
  have hmax := size_le_u64Max
  induction left generalizing sigStart pubkeyStart with
  | zero => exact ⟨fun _ i hi => absurd hi (Nat.not_lt_zero i), fun _ => rfl⟩
  | succ left ih =>
    rw [Nat.mul_succ] at hsig hkey
    have hsig' : checkedAddU64 sigStart sizeOfSignature = some (sigStart + sizeOfSignature) :=
      checkedAddU64_eq_some.2 ⟨by omega, rfl⟩
    have hkey' : saturatingAddU64 pubkeyStart sizeOfPubkey = pubkeyStart + sizeOfPubkey :=
      min_eq_left (by omega)
    rw [Nat.forall_lt_succ_left, verifySignatures, hsig', hkey']
    dsimp only
    rw [verifySignature_eq hdata hmsg (by omega) (by omega)]
    cases hfirst : (checkAt bytes msgStart sigStart pubkeyStart 0).passes verify with
    | false => simp
    | true =>
      simp only [true_and, checkAt_succ]
      exact ih (by omega) (by omega)

/-- What the verification of a packet looks at. -/
def packetChecks (voteProgramId : KeyBytes) (rejectNonVote : Bool) (packet : Packet) :
    List SignatureCheck :=
  let offsets := (getPacketOffsets voteProgramId packet 0 rejectNonVote).1
  (List.range offsets.sigLen).map
    (checkAt (packet.data.getD []) offsets.msgStart offsets.sigStart offsets.pubkeyStart)

lemma verifyPacket_eq_true (rejectNonVote : Bool) :
    (verifyPacket voteProgramId verify packet rejectNonVote).1 = true ↔
      packetChecks voteProgramId rejectNonVote packet ≠ [] ∧
        ∀ check ∈ packetChecks voteProgramId rejectNonVote packet, check.passes verify = true := by
  have hfits : 0 + packetDataSize ≤ u32Max := by decide
  unfold verifyPacket packetChecks
  cases hoffsets : offsetsInPacket packet with
  | error e =>
    rw [getPacketOffsets_of_error hoffsets]
    split_ifs <;> simp
  | ok offsets =>
    obtain ⟨bytes, header, hdata, hlocated⟩ := offsetsInPacket_data hoffsets
    obtain ⟨hdiscard, -, hlength, -⟩ := data_eq_some hdata
    have hpos := hlocated.sigLen_pos
    have hmsg := hlocated.msgStart_lt
    have hflagged : (flagged voteProgramId packet offsets).data = some bytes :=
      (data_flagged voteProgramId packet offsets).trans hdata
    rw [getPacketOffsets_of_ok hoffsets hfits, shiftOffsets_zero, hdiscard, if_neg (by decide),
      hdata, Option.getD_some]
    split_ifs with haccept
    · have hnonempty : (range offsets.sigLen).map
          (checkAt bytes offsets.msgStart offsets.sigStart offsets.pubkeyStart) ≠ [] := by
        rw [Ne, map_eq_nil_iff, range_eq_nil]
        exact hpos.ne'
      dsimp only
      rw [if_neg hpos.ne', size_flagged, if_neg (by omega)]
      dsimp only
      rw [verifySignatures_eq_true hflagged hmsg.le (hlocated.signatures_end.trans_le hmsg.le)
        hlocated.keys_end]
      simp [hnonempty]
    · simp

/-- A legacy message with at most two signatures and one instruction, for the vote program. -/
def SimpleVote (voteProgramId : KeyBytes) (tx : VersionedTransaction) : Prop :=
  (∃ legacy, tx.message = .legacy legacy) ∧ tx.signatures.length ≤ 2 ∧
    ∃ instruction, tx.message.instructions = [instruction] ∧
      tx.message.staticAccountKeys[instruction.programIdIndex.toNat]? = some voteProgramId

def instructionsLenOffset (tx : VersionedTransaction) : Nat :=
  (txOffsets tx).pubkeyLen * sizeOfPubkey + (txOffsets tx).pubkeyStart + sizeOfHash

lemma drop_instructionsLen (h : DecodedAs bytes tx message) :
    tx.message.instructions.length ≤ u16Max ∧ ∃ instructions rest,
      CompiledInstruction.codec.writeAll tx.message.instructions = some instructions ∧
      bytes.drop (instructionsLenOffset tx) =
        serializeShortU16 tx.message.instructions.length ++ (instructions ++ rest) := by
  obtain ⟨tail, hlayout⟩ := messageLayout_of_write h.serialized
  obtain ⟨hshort, blockhash, instructions, rest, hwrite, rfl⟩ := hlayout.instructions
  refine ⟨hshort, instructions, rest, hwrite, ?_⟩
  have hkeys : (tx.message.staticAccountKeys.flatMap Subtype.val).length =
      (txOffsets tx).pubkeyLen * sizeOfPubkey := by
    rw [length_flatMap_val, Nat.mul_comm]
    rfl
  have hhash : blockhash.1.length = sizeOfHash := blockhash.2
  rw [instructionsLenOffset, Nat.add_comm (_ * _), ← drop_drop, ← drop_drop, h.drop_pubkeyStart hlayout,
    drop_left' hkeys, drop_left' hhash]

lemma writeAll_singleton {written : ByteString}
    (h : CompiledInstruction.codec.writeAll [instruction] = some written) :
    ∃ rest, written = instruction.programIdIndex :: rest := by
  obtain ⟨front, hfront, h⟩ := Option.bind_eq_some_iff.1 h
  obtain ⟨first, back, hfirst, -, rfl⟩ := Codec.write_pair_eq_some.1 hfront
  cases hfirst
  cases h
  exact ⟨back ++ [], rfl⟩

lemma dataRange_key (h : DecodedAs bytes tx message) (hdata : packet.data = some bytes)
    (hkey : tx.message.staticAccountKeys[i]? = some key) :
    packet.dataRange (i * sizeOfPubkey + (txOffsets tx).pubkeyStart)
        (i * sizeOfPubkey + (txOffsets tx).pubkeyStart + sizeOfPubkey) = some key.1 := by
  obtain ⟨tail, hlayout⟩ := messageLayout_of_write h.serialized
  have hslice : (bytes.drop (i * sizeOfPubkey + (txOffsets tx).pubkeyStart)).take sizeOfPubkey =
      key.1 := by
    rw [Nat.add_comm, ← drop_drop, h.drop_pubkeyStart hlayout, Nat.mul_comm]
    exact take_drop_flatMap_val hkey tail
  have hinside : i * sizeOfPubkey + (txOffsets tx).pubkeyStart + sizeOfPubkey ≤ bytes.length := by
    have hlength := congrArg length hslice
    rw [length_take, length_drop, key.2] at hlength
    simp only [sizeOfPubkey] at hlength ⊢
    omega
  rw [dataRange_eq hdata hinside, hslice]

/-- What is read at the instructions of a transaction: their number, and the index of the program
if there is one instruction. -/
structure InstructionsRead (packet : Packet) (tx : VersionedTransaction) : Prop where
  fits : instructionsLenOffset tx + (serializeShortU16 tx.message.instructions.length).length ≤
    packetDataSize
  inside : instructionsLenOffset tx + 1 ≤ packet.packetMeta.size
  decode : (packet.dataFrom (instructionsLenOffset tx)).bind decodeShortu16Len =
    some (tx.message.instructions.length,
      (serializeShortU16 tx.message.instructions.length).length)
  index : ∀ instruction, tx.message.instructions = [instruction] →
    packet.dataAt (instructionsLenOffset tx +
        (serializeShortU16 tx.message.instructions.length).length) =
      some instruction.programIdIndex ∧
    instructionsLenOffset tx + (serializeShortU16 tx.message.instructions.length).length + 1 ≤
      packet.packetMeta.size

section

variable (h : DecodedAs bytes tx message)

include h

section

variable (hdata : packet.data = some bytes)

include hdata

lemma instructionsRead : InstructionsRead packet tx := by
  obtain ⟨hshort, instructions, rest, hwrite, hdrop⟩ := drop_instructionsLen h
  obtain ⟨-, -, hlength, hsize⟩ := data_eq_some hdata
  have hpos := length_serializeShortU16_pos tx.message.instructions.length
  have hinside : instructionsLenOffset tx +
      (serializeShortU16 tx.message.instructions.length).length + instructions.length ≤
        bytes.length := by
    have hlen := congrArg length hdrop
    rw [length_drop, length_append, length_append] at hlen
    omega
  refine ⟨by omega, by omega, ?_, ?_⟩
  · rw [dataFrom_eq hdata (by omega), Option.bind_some, hdrop]
    exact decodeShortu16Len_serialize hshort _
  · intro instruction hone
    rw [hone] at hwrite
    obtain ⟨back, rfl⟩ := writeAll_singleton hwrite
    rw [length_cons] at hinside
    refine ⟨?_, by omega⟩
    rw [dataAt_eq hdata, ← getElem?_drop, hdrop, getElem?_append_right (Nat.le_refl _),
      Nat.sub_self]
    rfl

lemma simpleVoteProgram_sound {program : ByteString}
    (hprogram : simpleVoteProgram packet (txOffsets tx).pubkeyStart (txOffsets tx).pubkeyLen =
      .ok program) :
    ∃ instruction key, tx.message.instructions = [instruction] ∧
      tx.message.staticAccountKeys[instruction.programIdIndex.toNat]? = some key ∧
      program = key.1 := by
  have hread := instructionsRead h hdata
  obtain ⟨_, hlen, hprogram⟩ := bind_eq_ok.1 hprogram
  obtain ⟨_, hoffset, hlen⟩ := Option.bind_eq_some_iff.1 (okOrError_eq_ok.1 hlen)
  obtain ⟨-, rfl⟩ := checkedMulAdd_eq_some.1 hoffset
  obtain ⟨-, rfl⟩ := checkedAddU64_eq_some.1 hlen
  obtain ⟨_, -, hprogram⟩ := bind_eq_ok.1 hprogram
  obtain ⟨⟨instructionLen, instructionLenSize⟩, hpair, hprogram⟩ := bind_eq_ok.1 hprogram
  obtain ⟨rfl, rfl⟩ := Prod.mk.inj
    (Option.mem_unique (okOrError_eq_ok.1 hpair) hread.decode)
  obtain ⟨_, hone, hprogram⟩ := bind_eq_ok.1 hprogram
  obtain ⟨instruction, hone⟩ := length_eq_one_iff.1 (not_not.1 (refuseIf_eq_ok.1 hone))
  obtain ⟨_, hinstructionStart, hprogram⟩ := bind_eq_ok.1 hprogram
  obtain ⟨-, rfl⟩ := checkedAddU64_eq_some.1 (okOrError_eq_ok.1 hinstructionStart)
  obtain ⟨_, -, hprogram⟩ := bind_eq_ok.1 hprogram
  obtain ⟨programIdIndex, hindex, hprogram⟩ := bind_eq_ok.1 hprogram
  obtain rfl := Option.some.inj
    ((okOrError_eq_ok.1 hindex).symm.trans (hread.index instruction hone).1)
  obtain ⟨_, hlt, hprogram⟩ := bind_eq_ok.1 hprogram
  have hlt : instruction.programIdIndex.toNat < tx.message.staticAccountKeys.length :=
    Nat.not_le.1 (refuseIf_eq_ok.1 hlt)
  obtain ⟨_, hidStart, hprogram⟩ := bind_eq_ok.1 hprogram
  obtain ⟨-, rfl⟩ := checkedMulAdd_eq_some.1 (okOrError_eq_ok.1 hidStart)
  obtain ⟨_, hidEnd, hprogram⟩ := bind_eq_ok.1 hprogram
  obtain ⟨-, rfl⟩ := checkedAddU64_eq_some.1 (okOrError_eq_ok.1 hidEnd)
  have hkey := getElem?_eq_getElem hlt
  rw [dataRange_key h hdata hkey] at hprogram
  exact ⟨instruction, _, hone, hkey, (Except.ok.inj hprogram).symm⟩

lemma simpleVoteProgram_complete (hone : tx.message.instructions = [instruction])
    (hkey : tx.message.staticAccountKeys[instruction.programIdIndex.toNat]? = some key) :
    simpleVoteProgram packet (txOffsets tx).pubkeyStart (txOffsets tx).pubkeyLen = .ok key.1 := by
  obtain ⟨hfits, hinside, hdecode, hindex⟩ := instructionsRead h hdata
  obtain ⟨hindex, hinside'⟩ := hindex instruction hone
  have hmax := size_le_u64Max
  have hsize := (data_eq_some hdata).2.2
  have hlt := (List.getElem?_eq_some_iff.1 hkey).1
  have hlt' : (instruction.programIdIndex.toNat + 1) * sizeOfPubkey ≤
      (txOffsets tx).pubkeyLen * sizeOfPubkey := Nat.mul_le_mul_right _ hlt
  rw [Nat.succ_mul] at hlt'
  have hoffset : instructionsLenOffset tx = (txOffsets tx).pubkeyLen * sizeOfPubkey +
    (txOffsets tx).pubkeyStart + sizeOfHash := rfl
  have hadd : ∀ {a b}, a + b ≤ u64Max → checkedAddU64 a b = some (a + b) := fun hle =>
    checkedAddU64_eq_some.2 ⟨hle, rfl⟩
  have hmulAdd : ∀ {a b c}, a * b + c ≤ u64Max →
      (checkedMulU64 a b).bind (checkedAddU64 · c) = some (a * b + c) := fun hle =>
    checkedMulAdd_eq_some.2 ⟨hle, rfl⟩
  refine bind_eq_ok.2 ⟨instructionsLenOffset tx, okOrError_eq_ok.2
    (Option.bind_eq_some_iff.2 ⟨_, hmulAdd (by omega), hadd (by omega)⟩), ?_⟩
  refine bind_eq_ok.2 ⟨_, okOrError_eq_ok.2 (within_eq_some.2 ⟨hadd (by omega), hinside⟩), ?_⟩
  refine bind_eq_ok.2 ⟨_, okOrError_eq_ok.2 hdecode, ?_⟩
  refine bind_eq_ok.2 ⟨(), refuseIf_eq_ok.2 (not_not.2 (by rw [hone]; rfl)), ?_⟩
  refine bind_eq_ok.2 ⟨_, okOrError_eq_ok.2 (hadd (by omega)), ?_⟩
  refine bind_eq_ok.2 ⟨_, okOrError_eq_ok.2 (within_eq_some.2 ⟨hadd (by omega), hinside'⟩), ?_⟩
  refine bind_eq_ok.2 ⟨_, okOrError_eq_ok.2 hindex, ?_⟩
  refine bind_eq_ok.2 ⟨(), refuseIf_eq_ok.2 (Nat.not_le.2 hlt), ?_⟩
  refine bind_eq_ok.2 ⟨_, okOrError_eq_ok.2 (hmulAdd (by omega)), ?_⟩
  refine bind_eq_ok.2 ⟨_, okOrError_eq_ok.2 (hadd (by omega)), ?_⟩
  exact okOrError_eq_ok.2 (dataRange_key h hdata hkey)

end

lemma first_byte :
    ∃ first, bytes[(txOffsets tx).msgStart]? = some first ∧
      (first &&& messageVersionPrefix = 0 ↔ ∃ legacy, tx.message = .legacy legacy) := by
  obtain ⟨tail, hlayout⟩ := messageLayout_of_write h.serialized
  have hfirst : bytes[(txOffsets tx).msgStart]? = message[0]? := by
    rw [← h.drop_msgStart, getElem?_drop, Nat.add_zero]
  rw [hfirst, hlayout.parts]
  cases hmessage : tx.message with
  | legacy legacy => exact ⟨_, rfl, fun _ => ⟨legacy, rfl⟩, fun _ => h.unversioned legacy hmessage⟩
  | v0 message =>
    refine ⟨_, rfl, fun hbit => absurd hbit (by decide), ?_⟩
    rintro ⟨legacy, hlegacy⟩
    cases hlegacy

end

lemma isSimpleVoteTx_of_flags (hflags : packet.packetMeta.flags = 0) :
    packet.packetMeta.isSimpleVoteTx ≠ true := by
  unfold PacketMeta.isSimpleVoteTx
  rw [hflags]
  decide

lemma isSimpleVoteTx_flagged (h : DecodedAs bytes tx message) (hdata : packet.data = some bytes)
    (hflags : packet.packetMeta.flags = 0) :
    (flagged voteProgramId packet (txOffsets tx)).packetMeta.isSimpleVoteTx = true ↔
      SimpleVote voteProgramId tx := by
  obtain ⟨first, hfirst, hlegacy⟩ := first_byte h
  have hsub : ∀ n, okOrError PacketError.invalidLen (checkedSub n 0) = .ok n := fun n =>
    okOrError_eq_ok.2 (checkedSub_eq_some.2 ⟨Nat.zero_le n, rfl⟩)
  have hread : okOrError PacketError.invalidLen (packet.dataAt (txOffsets tx).msgStart) =
      .ok first := okOrError_eq_ok.2 ((dataAt_eq hdata _).trans hfirst)
  constructor
  · intro hflag
    unfold flagged at hflag
    split at hflag
    · rename_i checked hcheck
      obtain ⟨_, hfew, hcheck⟩ := bind_eq_ok.1 hcheck
      obtain ⟨msgStart, hmsgStart, hcheck⟩ := bind_eq_ok.1 hcheck
      obtain rfl := Except.ok.inj ((hsub _).symm.trans hmsgStart)
      obtain ⟨first', hfirst', hcheck⟩ := bind_eq_ok.1 hcheck
      obtain rfl := Except.ok.inj (hread.symm.trans hfirst')
      split_ifs at hcheck with hversioned
      · rw [← Except.ok.inj hcheck] at hflag
        exact absurd hflag (isSimpleVoteTx_of_flags hflags)
      · obtain ⟨pubkeyStart, hpubkeyStart, hcheck⟩ := bind_eq_ok.1 hcheck
        obtain rfl := Except.ok.inj ((hsub _).symm.trans hpubkeyStart)
        obtain ⟨program, hprogram, hcheck⟩ := bind_eq_ok.1 hcheck
        rw [← Except.ok.inj hcheck] at hflag
        split_ifs at hflag with hvote
        · obtain ⟨instruction, key, hone, hkey, rfl⟩ := simpleVoteProgram_sound h hdata hprogram
          exact ⟨hlegacy.1 (not_not.1 hversioned), Nat.not_lt.1 (refuseIf_eq_ok.1 hfew),
            instruction, hone, hkey.trans (congrArg some (Subtype.ext hvote))⟩
        · exact absurd hflag (isSimpleVoteTx_of_flags hflags)
    · exact absurd hflag (isSimpleVoteTx_of_flags hflags)
  · rintro ⟨hmessage, hfew, instruction, hone, hkey⟩
    have hcheck : checkForSimpleVoteTransaction voteProgramId packet (txOffsets tx) 0 =
        .ok packet.setSimpleVoteTx := by
      refine bind_eq_ok.2 ⟨(), refuseIf_eq_ok.2 (Nat.not_lt.2 hfew), ?_⟩
      refine bind_eq_ok.2 ⟨_, hsub _, ?_⟩
      refine bind_eq_ok.2 ⟨first, hread, ?_⟩
      rw [if_neg (not_not.2 (hlegacy.2 hmessage))]
      refine bind_eq_ok.2 ⟨_, hsub _, ?_⟩
      refine bind_eq_ok.2 ⟨_, simpleVoteProgram_complete h hdata hone hkey, ?_⟩
      rw [if_pos rfl]
    unfold flagged
    rw [hcheck]
    exact isSimpleVoteTx_setSimpleVoteTx packet

lemma deserializeSlice_eq_some (h : packet.deserializeSlice VersionedTransaction.codec = some tx) :
    ∃ bytes message, packet.data = some bytes ∧ DecodedAs bytes tx message := by
  obtain ⟨bytes, hdata, h⟩ := Option.bind_eq_some_iff.1 h
  obtain ⟨message, hdecoded⟩ := decodedAs_of_readAll h
  exact ⟨bytes, message, hdata, hdecoded⟩

lemma offsetsInPacket_iff (h : DecodedAs bytes tx message) (hdata : packet.data = some bytes)
    :
    offsetsInPacket packet = .ok offsets ↔ offsets = txOffsets tx ∧ SignersMatch tx := by
  rw [offsetsInPacket_eq_ok hdata]
  constructor
  · rintro ⟨header, hlocated⟩
    exact ((located_iff h).1 hlocated).2
  · rintro ⟨rfl, hmatch⟩
    exact ⟨headerOffset tx, (located_iff h).2 ⟨rfl, rfl, hmatch⟩⟩

lemma packetMessage_eq (h : DecodedAs bytes tx message) (hdata : packet.data = some bytes) :
    packetMessage packet = .ok message := by
  have hlength := congrArg length h.drop_msgStart
  have hparts := congrArg length h.parts
  rw [length_append, length_append, length_flatMap_val] at hparts
  have hstart : (txOffsets tx).msgStart =
    tx.signatures.length * 64 + (serializeShortU16 tx.signatures.length).length := rfl
  have hmax := size_le_u64Max
  obtain ⟨-, -, -, hsize⟩ := data_eq_some hdata
  refine bind_eq_ok.2 ⟨((txOffsets tx).sigLen, (txOffsets tx).sigStart), ?_, ?_⟩
  · rw [okOrError_eq_ok, hdata]
    exact h.decode_signatures
  · refine okOrError_eq_ok.2 (Option.bind_eq_some_iff.2 ⟨(txOffsets tx).msgStart, ?_, ?_⟩)
    · exact checkedMulAdd_eq_some.2 ⟨by change (txOffsets tx).msgStart ≤ _; omega, rfl⟩
    · rw [dataFrom_eq hdata (by omega), h.drop_msgStart]

lemma passes_checkAt (verify : SignatureBytes → ByteString → ByteString → Bool)
    (h : DecodedAs bytes tx message) {signature : SignatureBytes}
    (hsignature : tx.signatures[i]? = some signature)
    (hkey : tx.message.staticAccountKeys[i]? = some key) :
    (checkAt bytes (txOffsets tx).msgStart (txOffsets tx).sigStart (txOffsets tx).pubkeyStart
      i).passes verify = verify signature key.1 message := by
  obtain ⟨tail, hlayout⟩ := messageLayout_of_write h.serialized
  have hcheck : checkAt bytes (txOffsets tx).msgStart (txOffsets tx).sigStart
      (txOffsets tx).pubkeyStart i = ⟨signature.1, key.1, message⟩ := by
    unfold checkAt
    rw [← drop_drop, h.drop_sigStart, ← drop_drop, h.drop_pubkeyStart hlayout, h.drop_msgStart]
    simp only [sizeOfSignature, sizeOfPubkey, take_drop_flatMap_val hsignature,
      take_drop_flatMap_val hkey]
  rw [hcheck]
  exact dif_pos signature.2

lemma verifyPacket_decoded (h : DecodedAs bytes tx message) (hdata : packet.data = some bytes) :
    (verifyPacket voteProgramId verify packet false).1 = true ↔
      SignersMatch tx ∧ ∀ (i : Nat) signature key, tx.signatures[i]? = some signature →
        tx.message.staticAccountKeys[i]? = some key → verify signature key.1 message = true := by
  rw [verifyPacket_eq_true]
  unfold packetChecks
  cases hoffsets : offsetsInPacket packet with
  | error e =>
    rw [getPacketOffsets_of_error hoffsets]
    refine ⟨fun hchecks => absurd rfl hchecks.1, ?_⟩
    rintro ⟨hmatch, -⟩
    cases hoffsets.symm.trans ((offsetsInPacket_iff h hdata).2 ⟨rfl, hmatch⟩)
  | ok offsets =>
    obtain ⟨rfl, hmatch⟩ := (offsetsInPacket_iff h hdata).1 hoffsets
    obtain ⟨header, hlocated⟩ := (offsetsInPacket_eq_ok hdata).1 hoffsets
    rw [getPacketOffsets_accept hoffsets, hdata, Option.getD_some]
    have hnonempty : range (txOffsets tx).sigLen ≠ [] := by
      rw [Ne, range_eq_nil]
      exact hlocated.sigLen_pos.ne'
    simp only [ne_eq, map_eq_nil_iff, hnonempty, not_false_eq_true, true_and, mem_map,
      mem_range, forall_exists_index, and_imp, forall_apply_eq_imp_iff₂, hmatch]
    constructor
    · intro hall i signature key hsignature hkey
      rw [← passes_checkAt verify h hsignature hkey]
      exact hall i (List.getElem?_eq_some_iff.1 hsignature).1
    · intro hall i hi
      have hsignature := getElem?_eq_getElem (l := tx.signatures) hi
      have hkey := getElem?_eq_getElem (l := tx.message.staticAccountKeys)
        (hi.trans_le hmatch.2.1)
      rw [passes_checkAt verify h hsignature hkey]
      exact hall i _ _ hsignature hkey

end Nuah.Proofs
