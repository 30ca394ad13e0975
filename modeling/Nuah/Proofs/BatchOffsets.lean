import Nuah.Proofs.PacketVerification

/-!
# Batches of packets

The offsets of all packets of some batches, in the memory where the packets lie one after the other.
What is at these offsets is what the verification of the single packets looks at.
-/

namespace Nuah.Proofs

open ByteStrings Codecs ShortVec Sigverify List

variable {voteProgramId : KeyBytes} {packet : Packet} {sizeOfPacket : Nat} {rejectNonVote : Bool}
  {place : Nat}

def appendOffsets (a b : TxOffsets) : TxOffsets where
  signatureOffsets := a.signatureOffsets ++ b.signatureOffsets
  pubkeyOffsets := a.pubkeyOffsets ++ b.pubkeyOffsets
  msgStartOffsets := a.msgStartOffsets ++ b.msgStartOffsets
  msgSizes := a.msgSizes ++ b.msgSizes

lemma appendOffsets_assoc (a b c : TxOffsets) :
    appendOffsets (appendOffsets a b) c = appendOffsets a (appendOffsets b c) := by
  simp [appendOffsets]

lemma appendOffsets_nil (a : TxOffsets) : appendOffsets a ⟨[], [], [], []⟩ = a := by
  simp [appendOffsets]

/-- The offsets of signatures and keys in a row, with the same message. -/
def rowOffsets (msgStart msgSize left sigOffset pubkeyOffset : Nat) : TxOffsets where
  signatureOffsets := (List.range left).map fun i => sigOffset + sizeOfSignature * i
  pubkeyOffsets := (List.range left).map fun i => pubkeyOffset + sizeOfPubkey * i
  msgStartOffsets := List.replicate left msgStart
  msgSizes := List.replicate left (msgSize - msgStart)

lemma map_range_succ (start step n : Nat) :
    (List.range (n + 1)).map (fun i => start + step * i) =
      start :: (List.range n).map fun i => start + step + step * i := by
  rw [range_succ_eq_map, map_cons, map_map, Nat.mul_zero, Nat.add_zero]
  refine congrArg (start :: ·) (map_congr_left fun i _ => ?_)
  change start + step * (i + 1) = _
  ring

lemma pushOffsets_eq {msgStart msgSize left sigOffset pubkeyOffset : Nat} (out : TxOffsets)
    (hsig : sigOffset + sizeOfSignature * left ≤ u32Max)
    (hkey : pubkeyOffset + sizeOfPubkey * left ≤ u32Max) :
    pushOffsets msgStart msgSize left sigOffset pubkeyOffset out =
      appendOffsets out (rowOffsets msgStart msgSize left sigOffset pubkeyOffset) := by
  induction left generalizing sigOffset pubkeyOffset out with
  | zero => exact (appendOffsets_nil out).symm
  | succ left ih =>
    rw [Nat.mul_succ] at hsig hkey
    have hsig' : saturatingAddU32 sigOffset sizeOfSignature = sigOffset + sizeOfSignature :=
      min_eq_left (by omega)
    have hkey' : saturatingAddU32 pubkeyOffset sizeOfPubkey = pubkeyOffset + sizeOfPubkey :=
      min_eq_left (by omega)
    rw [pushOffsets, hsig', hkey', ih _ (by omega) (by omega)]
    simp [appendOffsets, rowOffsets, saturatingSub, map_range_succ, replicate_succ]

def entriesOf (voteProgramId : KeyBytes) (rejectNonVote : Bool) (place : Nat) (packet : Packet) :
    TxOffsets :=
  let offsets := (getPacketOffsets voteProgramId packet 0 rejectNonVote).1
  rowOffsets (place + offsets.msgStart) (place + packet.packetMeta.size) offsets.sigLen
    (place + offsets.sigStart) (place + offsets.pubkeyStart)

/-- The number of signatures of a packet, and the packet with its flags. -/
def verifiedPacket (voteProgramId : KeyBytes) (rejectNonVote : Bool) (packet : Packet) :
    Nat × Packet :=
  ((getPacketOffsets voteProgramId packet 0 rejectNonVote).1.sigLen,
    (getPacketOffsets voteProgramId packet 0 rejectNonVote).2)

lemma getPacketOffsets_cases (voteProgramId : KeyBytes) (rejectNonVote : Bool) (packet : Packet) :
    (∃ flaggedPacket : Packet, flaggedPacket.packetMeta.size = packet.packetMeta.size ∧
      ∀ place, place + packetDataSize ≤ u32Max →
        getPacketOffsets voteProgramId packet place rejectNonVote =
          (⟨0, 0, 0, 0, 0⟩, flaggedPacket)) ∨
    ∃ bytes header offsets, packet.data = some bytes ∧ Located bytes header offsets ∧
      ∀ place, place + packetDataSize ≤ u32Max →
        getPacketOffsets voteProgramId packet place rejectNonVote =
          (shiftOffsets place offsets, flagged voteProgramId packet offsets) := by
  cases hoffsets : offsetsInPacket packet with
  | error e => exact .inl ⟨packet, rfl, fun place _ => getPacketOffsets_of_error hoffsets _⟩
  | ok offsets =>
    obtain ⟨bytes, header, hdata, hlocated⟩ := offsetsInPacket_data hoffsets
    by_cases haccept :
        (!rejectNonVote || (flagged voteProgramId packet offsets).packetMeta.isSimpleVoteTx) = true
    · refine .inr ⟨bytes, header, offsets, hdata, hlocated, fun place hfits => ?_⟩
      rw [getPacketOffsets_of_ok hoffsets hfits, if_pos haccept]
    · refine .inl ⟨_, size_flagged voteProgramId packet offsets, fun place hfits => ?_⟩
      rw [getPacketOffsets_of_ok hoffsets hfits, if_neg haccept]

lemma generatePacket_eq (hsize : packetDataSize ≤ sizeOfPacket)
    (hfits : place + sizeOfPacket ≤ u32Max) (out : TxOffsets) :
    generatePacket voteProgramId sizeOfPacket rejectNonVote ⟨place, out⟩ packet =
      (⟨place + sizeOfPacket, appendOffsets out (entriesOf voteProgramId rejectNonVote place packet)⟩,
        verifiedPacket voteProgramId rejectNonVote packet) := by
  have hzero : 0 + packetDataSize ≤ u32Max := by decide
  have hplace : place + packetDataSize ≤ u32Max := by omega
  have hmax : u32Max ≤ u64Max := by decide
  have hnext : saturatingAddU64 place sizeOfPacket = place + sizeOfPacket := min_eq_left (by omega)
  unfold generatePacket entriesOf verifiedPacket
  rcases getPacketOffsets_cases voteProgramId rejectNonVote packet with
    ⟨flaggedPacket, -, hoffsets⟩ | ⟨bytes, header, offsets, hdata, hlocated, hoffsets⟩
  · rw [hoffsets 0 hzero, hoffsets place hplace, hnext]
    exact congrArg (fun offsets => ((⟨_, offsets⟩ : OffsetsState), _)) (appendOffsets_nil out).symm
  · rw [hoffsets 0 hzero, hoffsets place hplace, shiftOffsets_zero, hnext]
    obtain ⟨-, -, hlength, hbytes⟩ := data_eq_some hdata
    have hsignatures := hlocated.signatures_end
    have hmsg := hlocated.msgStart_lt
    have hkeys := hlocated.keys_end
    have hmsgSize : saturatingAddU64 place packet.packetMeta.size % 2 ^ 32 =
        place + packet.packetMeta.size := by
      rw [saturatingAddU64, min_eq_left (by omega), Nat.mod_eq_of_lt]
      have : u32Max < 2 ^ 32 := by decide
      omega
    simp only [shiftOffsets, size_flagged, hmsgSize]
    rw [pushOffsets_eq out (by omega) (by omega)]

def entriesOfAll (voteProgramId : KeyBytes) (rejectNonVote : Bool) (sizeOfPacket : Nat) :
    Nat → List Packet → TxOffsets
  | _, [] => ⟨[], [], [], []⟩
  | place, packet :: packets =>
    appendOffsets (entriesOf voteProgramId rejectNonVote place packet)
      (entriesOfAll voteProgramId rejectNonVote sizeOfPacket (place + sizeOfPacket) packets)

lemma entriesOfAll_append (place : Nat) (front back : List Packet) :
    entriesOfAll voteProgramId rejectNonVote sizeOfPacket place (front ++ back) =
      appendOffsets (entriesOfAll voteProgramId rejectNonVote sizeOfPacket place front)
        (entriesOfAll voteProgramId rejectNonVote sizeOfPacket
          (place + front.length * sizeOfPacket) back) := by
  induction front generalizing place with
  | nil =>
    rw [length_nil, Nat.zero_mul, Nat.add_zero]
    rfl
  | cons packet front ih =>
    rw [cons_append, entriesOfAll, entriesOfAll, ih, appendOffsets_assoc, length_cons]
    congr 3
    ring

variable {packets : List Packet}

lemma generateBatch_eq (hsize : packetDataSize ≤ sizeOfPacket)
    (hfits : place + packets.length * sizeOfPacket ≤ u32Max) (out : TxOffsets) :
    generateBatch voteProgramId sizeOfPacket rejectNonVote ⟨place, out⟩ packets =
      (⟨place + packets.length * sizeOfPacket, appendOffsets out
        (entriesOfAll voteProgramId rejectNonVote sizeOfPacket place packets)⟩,
        packets.map (verifiedPacket voteProgramId rejectNonVote)) := by
  induction packets generalizing place out with
  | nil =>
    rw [length_nil, Nat.zero_mul, Nat.add_zero, entriesOfAll, appendOffsets_nil]
    rfl
  | cons packet packets ih =>
    rw [length_cons, Nat.succ_mul] at hfits
    rw [generateBatch, generatePacket_eq hsize (by omega)]
    dsimp only
    have hplace : place + sizeOfPacket + packets.length * sizeOfPacket =
        place + (packets.length * sizeOfPacket + sizeOfPacket) := by omega
    rw [ih (by omega), entriesOfAll, appendOffsets_assoc, length_cons, Nat.succ_mul, hplace]
    rfl

lemma generateBatches_eq (hsize : packetDataSize ≤ sizeOfPacket) {batches : List (List Packet)}
    (hfits : place + batches.flatten.length * sizeOfPacket ≤ u32Max) (out : TxOffsets) :
    generateBatches voteProgramId sizeOfPacket rejectNonVote ⟨place, out⟩ batches =
      (⟨place + batches.flatten.length * sizeOfPacket, appendOffsets out
        (entriesOfAll voteProgramId rejectNonVote sizeOfPacket place batches.flatten)⟩,
        batches.map fun batch => batch.map (verifiedPacket voteProgramId rejectNonVote)) := by
  induction batches generalizing place out with
  | nil =>
    rw [flatten_nil, length_nil, Nat.zero_mul, Nat.add_zero, entriesOfAll, appendOffsets_nil]
    rfl
  | cons batch batches ih =>
    rw [flatten_cons, length_append, Nat.add_mul] at hfits
    rw [generateBatches, generateBatch_eq hsize (by omega)]
    dsimp only
    rw [ih (by omega), flatten_cons, entriesOfAll_append, appendOffsets_assoc,
      length_append, Nat.add_mul, Nat.add_assoc]
    rfl

/-- The packets lie in memory one after the other, each with its buffer first. -/
def LaidOut (sizeOfPacket : Nat) (memory : ByteString) (packets : List Packet) : Prop :=
  ∀ (k : Nat) packet, packets[k]? = some packet →
    (memory.drop (k * sizeOfPacket)).take packetDataSize = packet.buffer.1

/-- The checks that the offsets stand for. -/
def memoryChecks (memory : ByteString) (offsets : TxOffsets) : List SignatureCheck :=
  ((offsets.signatureOffsets.zip offsets.pubkeyOffsets).zip
    (offsets.msgStartOffsets.zip offsets.msgSizes)).map fun entry =>
      { signature := (memory.drop entry.1.1).take sizeOfSignature
        pubkey := (memory.drop entry.1.2).take sizeOfPubkey
        message := (memory.drop entry.2.1).take entry.2.2 }

lemma take_drop_of_take {l l' : ByteString} {n offset length : Nat}
    (h : (l.drop place).take n = l') (hle : offset + length ≤ n) :
    (l.drop (place + offset)).take length = (l'.drop offset).take length := by
  rw [← h, drop_take, take_take, drop_drop, min_eq_left (by omega)]

variable (memory : ByteString)

lemma memoryChecks_row (msgStart msgSize left sigOffset pubkeyOffset : Nat) :
    memoryChecks memory (rowOffsets msgStart msgSize left sigOffset pubkeyOffset) =
      (List.range left).map fun i =>
        { signature := (memory.drop (sigOffset + sizeOfSignature * i)).take sizeOfSignature
          pubkey := (memory.drop (pubkeyOffset + sizeOfPubkey * i)).take sizeOfPubkey
          message := (memory.drop msgStart).take (msgSize - msgStart) } := by
  have hreplicate : ∀ n : Nat, List.replicate left n = (List.range left).map fun _ => n := by
    intro n
    rw [map_const', length_range]
  simp only [memoryChecks, rowOffsets, hreplicate, zip_map', map_map]
  rfl

variable {memory : ByteString}

lemma memoryChecks_entriesOf (h : (memory.drop place).take packetDataSize = packet.buffer.1) :
    memoryChecks memory (entriesOf voteProgramId rejectNonVote place packet) =
      packetChecks voteProgramId rejectNonVote packet := by
  have hzero : 0 + packetDataSize ≤ u32Max := by decide
  unfold entriesOf packetChecks
  rw [memoryChecks_row]
  rcases getPacketOffsets_cases voteProgramId rejectNonVote packet with
    ⟨flaggedPacket, -, hoffsets⟩ | ⟨bytes, header, offsets, hdata, hlocated, hoffsets⟩
  · rw [hoffsets 0 hzero]
    rfl
  · rw [hoffsets 0 hzero, shiftOffsets_zero, hdata, Option.getD_some]
    obtain ⟨-, hbytes, hlength, hsize⟩ := data_eq_some hdata
    have hread : (memory.drop place).take bytes.length = bytes := by
      have hmemory := @take_drop_of_take place memory packet.buffer.1 packetDataSize 0 bytes.length
        h (by omega)
      rw [Nat.add_zero, drop_zero] at hmemory
      rw [hmemory, hlength, ← hbytes]
    have hmsg := hlocated.msgStart_lt
    have hsignatures := hlocated.signatures_end
    have hkeys := hlocated.keys_end
    dsimp only
    refine map_congr_left fun i hi => ?_
    have hi : i + 1 ≤ offsets.sigLen := mem_range.1 hi
    have hsig := Nat.mul_le_mul_left sizeOfSignature hi
    have hkey := Nat.mul_le_mul_left sizeOfPubkey hi
    rw [Nat.mul_succ] at hsig hkey
    unfold checkAt
    congr 1
    · rw [Nat.add_assoc]
      exact take_drop_of_take hread (by omega)
    · rw [Nat.add_assoc]
      exact take_drop_of_take hread (by omega)
    · rw [take_drop_of_take hread (by omega)]
      exact take_of_length_le (by rw [length_drop]; omega)

lemma memoryChecks_append {a b : TxOffsets}
    (hpubkeys : a.signatureOffsets.length = a.pubkeyOffsets.length)
    (hstarts : a.signatureOffsets.length = a.msgStartOffsets.length)
    (hsizes : a.signatureOffsets.length = a.msgSizes.length) :
    memoryChecks memory (appendOffsets a b) = memoryChecks memory a ++ memoryChecks memory b := by
  unfold memoryChecks appendOffsets
  rw [zip_append hpubkeys, zip_append (hstarts.symm.trans hsizes), zip_append, map_append]
  rw [length_zip, length_zip]
  omega

lemma memoryChecks_entriesOfAll (h : ∀ (k : Nat) packet, packets[k]? = some packet →
      (memory.drop (place + k * sizeOfPacket)).take packetDataSize = packet.buffer.1) :
    memoryChecks memory (entriesOfAll voteProgramId rejectNonVote sizeOfPacket place packets) =
      packets.flatMap (packetChecks voteProgramId rejectNonVote) := by
  induction packets generalizing place with
  | nil => rfl
  | cons packet packets ih =>
    have hfirst := h 0 packet rfl
    rw [Nat.zero_mul, Nat.add_zero] at hfirst
    rw [entriesOfAll, memoryChecks_append, memoryChecks_entriesOf hfirst, ih, flatMap_cons]
    · intro k next hnext
      rw [Nat.add_assoc, Nat.add_comm sizeOfPacket, ← Nat.succ_mul]
      exact h (k + 1) next hnext
    all_goals simp only [entriesOf, rowOffsets, length_map, length_range, length_replicate]

variable (verify : SignatureBytes → ByteString → ByteString → Bool)

lemma snd_verifyPacket :
    (verifyPacket voteProgramId verify packet rejectNonVote).2 =
      (getPacketOffsets voteProgramId packet 0 rejectNonVote).2 := by
  unfold verifyPacket
  split_ifs with hdiscard
  · cases hoffsets : offsetsInPacket packet with
    | error e => rw [getPacketOffsets_of_error hoffsets]
    | ok offsets =>
      obtain ⟨bytes, -, hdata, -⟩ := offsetsInPacket_data hoffsets
      rw [(data_eq_some hdata).1] at hdiscard
      cases hdiscard
  · dsimp only
    split_ifs <;> rfl

lemma verifiedPacket_eq (packet : Packet) :
    verifiedPacket voteProgramId rejectNonVote packet =
      ((packetChecks voteProgramId rejectNonVote packet).length,
        (verifyPacket voteProgramId verify packet rejectNonVote).2) := by
  rw [snd_verifyPacket, packetChecks, length_map, length_range, verifiedPacket]

/-- A packet that decodes to a transaction passes if its signers match and all signatures verify
for the serialized message, and is flagged if it is a simple vote. In batches of less than `2 ^ 32`
bytes the offsets stand for the checks of the single packets. -/
theorem verifyPacket_checks_decoded_transaction (voteProgramId : KeyBytes)
    (verify : SignatureBytes → ByteString → ByteString → Bool) :
    (∀ packet tx, packet.packetMeta.flags = 0 →
      packet.deserializeSlice VersionedTransaction.codec = some tx →
      ∃ message, tx.message.serialize = some message ∧ packetMessage packet = .ok message ∧
        ((verifyPacket voteProgramId verify packet false).1 = true ↔
          SignersMatch tx ∧ ∀ (i : Nat) signature key, tx.signatures[i]? = some signature →
            tx.message.staticAccountKeys[i]? = some key → verify signature key.1 message = true) ∧
        ∀ offsets, doGetPacketOffsets packet 0 = .ok offsets →
          packet.dataFrom offsets.msgStart = some message ∧
          ((verifyPacket voteProgramId verify packet false).2.packetMeta.isSimpleVoteTx = true ↔
            SimpleVote voteProgramId tx)) ∧
    (∀ packet rejectNonVote,
      (verifyPacket voteProgramId verify packet rejectNonVote).1 = true ↔
        packetChecks voteProgramId rejectNonVote packet ≠ [] ∧
          ∀ check ∈ packetChecks voteProgramId rejectNonVote packet, check.passes verify = true) ∧
    ∀ sizeOfPacket rejectNonVote batches memory, packetDataSize ≤ sizeOfPacket →
      batches.flatten.length * sizeOfPacket < 2 ^ 32 →
      LaidOut sizeOfPacket memory batches.flatten →
      memoryChecks memory (generateOffsets voteProgramId sizeOfPacket rejectNonVote batches).1 =
          batches.flatten.flatMap (packetChecks voteProgramId rejectNonVote) ∧
        (generateOffsets voteProgramId sizeOfPacket rejectNonVote batches).2 =
          batches.map fun batch => batch.map fun packet =>
            ((packetChecks voteProgramId rejectNonVote packet).length,
              (verifyPacket voteProgramId verify packet rejectNonVote).2) := by
  refine ⟨?_, fun packet rejectNonVote => verifyPacket_eq_true rejectNonVote, ?_⟩
  · intro packet tx hflags hdecode
    obtain ⟨bytes, message, hdata, hdecoded⟩ := deserializeSlice_eq_some hdecode
    refine ⟨message, hdecoded.serialized, packetMessage_eq hdecoded hdata,
      verifyPacket_decoded hdecoded hdata, fun offsets hoffsets => ?_⟩
    have hzero : 0 + packetDataSize ≤ u32Max := by decide
    cases hfound : offsetsInPacket packet with
    | error e =>
      rw [doGetPacketOffsets_eq hzero, hfound] at hoffsets
      cases hoffsets
    | ok found =>
      rw [doGetPacketOffsets_eq hzero, hfound] at hoffsets
      cases hoffsets
      obtain ⟨rfl, hmatch⟩ := (offsetsInPacket_iff hdecoded hdata).1 hfound
      obtain ⟨header, hlocated⟩ := (offsetsInPacket_eq_ok hdata).1 hfound
      rw [shiftOffsets_zero, snd_verifyPacket, getPacketOffsets_accept hfound,
        dataFrom_eq hdata hlocated.msgStart_lt.le, hdecoded.drop_msgStart]
      exact ⟨rfl, isSimpleVoteTx_flagged hdecoded hdata hflags⟩
  · intro sizeOfPacket rejectNonVote batches memory hsize htotal hmemory
    have hfits : 0 + batches.flatten.length * sizeOfPacket ≤ u32Max := by
      rw [Nat.zero_add]
      exact Nat.le_sub_one_of_lt htotal
    unfold generateOffsets
    rw [generateBatches_eq hsize hfits]
    refine ⟨?_, ?_⟩
    · refine memoryChecks_entriesOfAll fun k packet hpacket => ?_
      rw [Nat.zero_add]
      exact hmemory k packet hpacket
    · exact map_congr_left fun batch _ =>
        map_congr_left fun packet _ => verifiedPacket_eq verify packet

/-! A vote with one signature. -/

def votePubkey : KeyBytes := ⟨List.replicate 32 9, by decide⟩

lemma length_zeroBlockhash : (List.replicate 32 (0 : UInt8)).length = 32 := length_replicate

def voteTransaction : VersionedTransaction where
  signatures := [⟨List.replicate 64 7, by decide⟩]
  message := .legacy
    { header := ⟨1, 0, 1⟩
      accountKeys := [⟨List.replicate 32 1, by decide⟩, votePubkey]
      recentBlockhash := ⟨List.replicate 32 0, length_zeroBlockhash⟩
      instructions := [⟨1, [0], [5, 5]⟩] }

def voteBytes : ByteString :=
  1 :: (List.replicate 64 7 ++ ([1, 0, 1] ++ (2 :: (List.replicate 32 1 ++ (List.replicate 32 9 ++
    (List.replicate 32 0 ++ [1, 1, 1, 0, 2, 5, 5]))))))

def votePacket : Packet where
  buffer := ⟨resize voteBytes packetDataSize, length_resize _ _⟩
  packetMeta := ⟨voteBytes.length, 0⟩

/-- A signature verifies if it begins with 7 and its key with 1. -/
def votesVerify (signature : SignatureBytes) (pubkey _message : ByteString) : Bool :=
  signature.1.head? == some 7 && pubkey.head? == some 1

theorem votePacket_verified :
    (verifyPacket votePubkey votesVerify votePacket false).1 = true ∧
    (verifyPacket votePubkey votesVerify votePacket false).2.packetMeta.isSimpleVoteTx = true ∧
    (∃ message, voteTransaction.message.serialize = some message ∧
      packetMessage votePacket = .ok message) ∧
    memoryChecks votePacket.buffer.1
        (generateOffsets votePubkey packetDataSize false [[votePacket]]).1 =
      packetChecks votePubkey false votePacket := by
  obtain ⟨hdecoded, -, hbatches⟩ := verifyPacket_checks_decoded_transaction votePubkey votesVerify
  obtain ⟨message, hserialized, hraw, hpasses, hflag⟩ :=
    hdecoded votePacket voteTransaction rfl (by decide +kernel)
  have hmatch : SignersMatch voteTransaction := ⟨rfl, by decide, by decide⟩
  have hmemory : LaidOut packetDataSize votePacket.buffer.1 [[votePacket]].flatten := by
    intro k packet hpacket
    cases k with
    | zero =>
      cases hpacket
      rw [Nat.zero_mul, drop_zero]
      exact take_of_length_le votePacket.buffer.2.le
    | succ k => cases hpacket
  have hbatch := (hbatches packetDataSize false [[votePacket]] votePacket.buffer.1 le_rfl
    (by decide) hmemory).1
  refine ⟨hpasses.2 ⟨hmatch, ?_⟩, ?_, ⟨message, hserialized, hraw⟩, ?_⟩
  · intro i signature key hsignature hkey
    cases i with
    | zero =>
      cases hsignature
      cases hkey
      rfl
    | succ i => cases hsignature
  · cases hoffsets : doGetPacketOffsets votePacket 0 with
    | error e =>
      have hsome : (doGetPacketOffsets votePacket 0).toOption.isSome = true := by decide +kernel
      rw [hoffsets] at hsome
      cases hsome
    | ok offsets =>
      exact (hflag offsets hoffsets).2.2 ⟨⟨_, rfl⟩, by decide, ⟨1, [0], [5, 5]⟩, rfl, rfl⟩
  · rw [hbatch]
    exact append_nil _

end Nuah.Proofs
