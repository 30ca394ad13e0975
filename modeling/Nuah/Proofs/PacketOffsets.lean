import Nuah.Sigverify

/-!
# Where packets have their parts

The offsets that are computed from raw bytes, when they are computed, and that they stay inside the
packet.
-/

namespace Nuah.Proofs

open ByteStrings Codecs ShortVec Sigverify

variable {ε : Type} {e : ε} {a n b c start header : Nat} {offsets : PacketOffsets}

lemma okOrError_eq_ok {α : Type} {o : Option α} {a : α} : okOrError e o = .ok a ↔ o = some a := by
  cases o <;> simp [okOrError]

lemma refuseIf_eq_ok {p : Prop} [Decidable p] {u : Unit} : refuseIf p e = .ok u ↔ ¬ p := by
  unfold refuseIf
  split_ifs with h <;> simp [h]

lemma tryU32_eq_ok {m : Nat} : tryU32 n = .ok m ↔ n ≤ u32Max ∧ m = n := by
  unfold tryU32
  split_ifs with h <;> simp [h, eq_comm]

lemma checkedMulU64_eq_some : checkedMulU64 a b = some c ↔ a * b ≤ u64Max ∧ c = a * b := by
  unfold checkedMulU64
  split_ifs with h <;> simp [h, eq_comm]

lemma checkedMulAdd_eq_some {d : Nat} :
    (checkedMulU64 a b).bind (checkedAddU64 · c) = some d ↔
      a * b + c ≤ u64Max ∧ d = a * b + c := by
  simp only [Option.bind_eq_some_iff, checkedMulU64_eq_some, checkedAddU64_eq_some]
  constructor
  · rintro ⟨_, ⟨-, rfl⟩, hle, rfl⟩
    exact ⟨hle, rfl⟩
  · rintro ⟨hle, rfl⟩
    exact ⟨a * b, ⟨(Nat.le_add_right _ c).trans hle, rfl⟩, hle, rfl⟩

variable {packet : Packet} {bytes : ByteString}

lemma within_eq_some {o : Option Nat} :
    within packet o = some n ↔ o = some n ∧ n ≤ packet.packetMeta.size := by
  rw [within, Option.filter_eq_some_iff, decide_eq_true_eq]

section

variable (h : packet.data = some bytes)

include h

lemma data_eq_some :
    packet.packetMeta.discard = false ∧ bytes = packet.buffer.1.take packet.packetMeta.size ∧
      bytes.length = packet.packetMeta.size ∧ bytes.length ≤ packetDataSize := by
  unfold Packet.data at h
  split_ifs at h with hdiscard hsize
  cases h
  have hlength : (packet.buffer.1.take packet.packetMeta.size).length = packet.packetMeta.size :=
    List.length_take_of_le (hsize.trans_eq packet.buffer.2.symm)
  exact ⟨Bool.eq_false_iff.2 hdiscard, rfl, hlength, hlength.trans_le hsize⟩

lemma dataAt_eq (i : Nat) : packet.dataAt i = bytes[i]? := by
  rw [Packet.dataAt, h]
  rfl

lemma dataFrom_eq (hle : start ≤ bytes.length) :
    packet.dataFrom start = some (bytes.drop start) := by
  rw [Packet.dataFrom, h]
  exact if_pos hle

lemma dataRange_eq {length : Nat} (hle : start + length ≤ bytes.length) :
    packet.dataRange start (start + length) = some ((bytes.drop start).take length) := by
  rw [Packet.dataRange, h]
  refine (if_pos ⟨Nat.le_add_right start length, hle⟩).trans ?_
  rw [Nat.add_sub_cancel_left]

end

lemma size_le_u64Max : packetDataSize ≤ u64Max := by decide

/-- The header starts at the message or, with a version, after its first byte. -/
def HeaderAt (bytes : ByteString) (msgStart header : Nat) : Prop :=
  ∃ first, bytes[msgStart]? = some first ∧
    (first &&& messageVersionPrefix ≠ 0 ∧ first &&& ~~~messageVersionPrefix = 0 ∧
        header = msgStart + 1 ∨
      first &&& messageVersionPrefix = 0 ∧ header = msgStart)

lemma HeaderAt.lt {msgStart : Nat} (h : HeaderAt bytes msgStart header) : msgStart < bytes.length := by
  obtain ⟨first, hfirst, -⟩ := h
  exact (List.getElem?_eq_some_iff.1 hfirst).1

section

variable (hdata : packet.data = some bytes)

include hdata

lemma msgHeaderOffset_eq_ok {msgStart : Nat} :
    msgHeaderOffset packet msgStart = .ok header ↔ HeaderAt bytes msgStart header := by
  obtain ⟨-, -, hlength, hsize⟩ := data_eq_some hdata
  constructor
  · intro h
    obtain ⟨_, hinside, h⟩ := bind_eq_ok.1 h
    obtain ⟨first, hfirst, h⟩ := bind_eq_ok.1 h
    rw [okOrError_eq_ok, dataAt_eq hdata] at hfirst
    refine ⟨first, hfirst, ?_⟩
    split_ifs at h with hversioned hzero
    · obtain ⟨-, rfl⟩ := checkedAddU64_eq_some.1 (okOrError_eq_ok.1 h)
      exact .inl ⟨hversioned, hzero, rfl⟩
    · exact .inr ⟨not_not.1 hversioned, (Except.ok.inj h).symm⟩
  · rintro ⟨first, hfirst, hheader⟩
    have hlt := (List.getElem?_eq_some_iff.1 hfirst).1
    refine bind_eq_ok.2 ⟨(), refuseIf_eq_ok.2 (by omega), ?_⟩
    refine bind_eq_ok.2 ⟨first, ?_, ?_⟩
    · rw [okOrError_eq_ok, dataAt_eq hdata]
      exact hfirst
    · rcases hheader with ⟨hversioned, hzero, rfl⟩ | ⟨hlegacy, rfl⟩
      · rw [if_pos hversioned, if_pos hzero, okOrError_eq_ok, checkedAddU64_eq_some]
        have := size_le_u64Max
        exact ⟨by omega, rfl⟩
      · rw [if_neg (not_not.2 hlegacy)]

lemma requiredSignatures_eq_ok :
    requiredSignatures packet header = .ok n ↔
      header + 1 + messageHeaderLength ≤ bytes.length ∧
        ∃ required readonlySigned, bytes[header]? = some required ∧
          bytes[header + 1]? = some readonlySigned ∧ readonlySigned < required ∧
          n = required.toNat := by
  obtain ⟨-, -, hlength, hsize⟩ := data_eq_some hdata
  constructor
  · intro h
    obtain ⟨_, hnext, h⟩ := bind_eq_ok.1 h
    obtain ⟨-, rfl⟩ := checkedAddU64_eq_some.1 (okOrError_eq_ok.1 hnext)
    obtain ⟨_, hinside, h⟩ := bind_eq_ok.1 h
    obtain ⟨hadd, hinside⟩ := within_eq_some.1 (okOrError_eq_ok.1 hinside)
    obtain ⟨-, rfl⟩ := checkedAddU64_eq_some.1 hadd
    obtain ⟨required, hrequired, h⟩ := bind_eq_ok.1 h
    obtain ⟨_, -, h⟩ := bind_eq_ok.1 h
    obtain ⟨readonlySigned, hreadonly, h⟩ := bind_eq_ok.1 h
    obtain ⟨_, hlt, h⟩ := bind_eq_ok.1 h
    rw [okOrError_eq_ok, dataAt_eq hdata] at hrequired hreadonly
    exact ⟨hlength ▸ hinside, required, readonlySigned, hrequired, hreadonly,
      UInt8.not_le.1 (refuseIf_eq_ok.1 hlt), (Except.ok.inj h).symm⟩
  · rintro ⟨hinside, required, readonlySigned, hrequired, hreadonly, hlt, rfl⟩
    have hmax := size_le_u64Max
    refine bind_eq_ok.2 ⟨header + 1, okOrError_eq_ok.2 ?_, ?_⟩
    · exact checkedAddU64_eq_some.2 ⟨by omega, rfl⟩
    refine bind_eq_ok.2 ⟨header + 1 + messageHeaderLength, okOrError_eq_ok.2 ?_, ?_⟩
    · exact within_eq_some.2 ⟨checkedAddU64_eq_some.2 ⟨by omega, rfl⟩, by omega⟩
    refine bind_eq_ok.2 ⟨required, okOrError_eq_ok.2 ?_, ?_⟩
    · rw [dataAt_eq hdata]
      exact hrequired
    refine bind_eq_ok.2 ⟨header + messageHeaderLength, okOrError_eq_ok.2 ?_, ?_⟩
    · exact checkedAddU64_eq_some.2 ⟨by omega, rfl⟩
    refine bind_eq_ok.2 ⟨readonlySigned, okOrError_eq_ok.2 ?_, ?_⟩
    · rw [dataAt_eq hdata]
      exact hreadonly
    exact bind_eq_ok.2 ⟨(), refuseIf_eq_ok.2 (UInt8.not_le.2 hlt), rfl⟩

lemma accountKeys_eq_ok {offset pubkeyLen pubkeyStart : Nat} (hoffset : offset ≤ bytes.length) :
    accountKeys packet offset = .ok (pubkeyLen, pubkeyStart) ↔
      pubkeyLen * sizeOfPubkey + pubkeyStart ≤ bytes.length ∧
        ∃ size, decodeShortu16Len (bytes.drop offset) = some (pubkeyLen, size) ∧
          pubkeyStart = offset + size := by
  obtain ⟨-, -, hlength, hsize⟩ := data_eq_some hdata
  unfold accountKeys
  rw [dataFrom_eq hdata hoffset, Option.bind_some]
  constructor
  · intro h
    obtain ⟨⟨len, size⟩, hdecode, h⟩ := bind_eq_ok.1 h
    obtain ⟨_, hstart, h⟩ := bind_eq_ok.1 h
    obtain ⟨-, rfl⟩ := checkedAddU64_eq_some.1 (okOrError_eq_ok.1 hstart)
    obtain ⟨_, hinside, h⟩ := bind_eq_ok.1 h
    obtain ⟨hadd, hinside⟩ := within_eq_some.1 (okOrError_eq_ok.1 hinside)
    obtain ⟨-, rfl⟩ := checkedMulAdd_eq_some.1 hadd
    cases h
    exact ⟨hlength ▸ hinside, size, okOrError_eq_ok.1 hdecode, rfl⟩
  · rintro ⟨hinside, size, hdecode, rfl⟩
    have hmax := size_le_u64Max
    refine bind_eq_ok.2 ⟨(pubkeyLen, size), okOrError_eq_ok.2 hdecode, ?_⟩
    refine bind_eq_ok.2 ⟨offset + size, okOrError_eq_ok.2 ?_, ?_⟩
    · exact checkedAddU64_eq_some.2 ⟨by omega, rfl⟩
    refine bind_eq_ok.2 ⟨pubkeyLen * sizeOfPubkey + (offset + size),
      okOrError_eq_ok.2 (within_eq_some.2 ⟨?_, ?_⟩), rfl⟩
    · exact checkedMulAdd_eq_some.2 ⟨by omega, rfl⟩
    · omega

end

/-- The offsets of a packet with the given bytes and the header at the given position. -/
structure Located (bytes : ByteString) (header : Nat) (offsets : PacketOffsets) : Prop where
  room : 1 + sizeOfSignature ≤ bytes.length
  signatures : decodeShortu16Len bytes = some (offsets.sigLen, offsets.sigStart)
  message : offsets.msgStart = offsets.sigLen * sizeOfSignature + offsets.sigStart
  headerAt : HeaderAt bytes offsets.msgStart header
  required : header + 1 + messageHeaderLength ≤ bytes.length ∧
    ∃ required readonlySigned, bytes[header]? = some required ∧
      bytes[header + 1]? = some readonlySigned ∧ readonlySigned < required ∧
      offsets.sigLen = required.toNat
  keys : offsets.pubkeyLen * sizeOfPubkey + offsets.pubkeyStart ≤ bytes.length ∧
    ∃ size, decodeShortu16Len (bytes.drop (header + messageHeaderLength)) =
        some (offsets.pubkeyLen, size) ∧
      offsets.pubkeyStart = header + messageHeaderLength + size
  enough : offsets.sigLen ≤ offsets.pubkeyLen

lemma offsetsInPacket_eq_ok (hdata : packet.data = some bytes) :
    offsetsInPacket packet = .ok offsets ↔ ∃ header, Located bytes header offsets := by
  obtain ⟨-, -, hlength, hsize⟩ := data_eq_some hdata
  have hmax := size_le_u64Max
  unfold offsetsInPacket
  rw [hdata, Option.bind_some]
  constructor
  · intro h
    obtain ⟨_, hroom, h⟩ := bind_eq_ok.1 h
    obtain ⟨hadd, hroom⟩ := within_eq_some.1 (okOrError_eq_ok.1 hroom)
    obtain ⟨-, rfl⟩ := checkedAddU64_eq_some.1 hadd
    obtain ⟨⟨sigLen, sigSize⟩, hsignatures, h⟩ := bind_eq_ok.1 h
    obtain ⟨_, hstart, h⟩ := bind_eq_ok.1 h
    obtain ⟨-, rfl⟩ := checkedMulAdd_eq_some.1 (okOrError_eq_ok.1 hstart)
    obtain ⟨header, hheader, h⟩ := bind_eq_ok.1 h
    obtain ⟨n, hrequired, h⟩ := bind_eq_ok.1 h
    obtain ⟨_, hsame, h⟩ := bind_eq_ok.1 h
    obtain rfl := not_not.1 (refuseIf_eq_ok.1 hsame)
    have hrequired := (requiredSignatures_eq_ok hdata).1 hrequired
    obtain ⟨⟨pubkeyLen, pubkeyStart⟩, hkeys, h⟩ := bind_eq_ok.1 h
    obtain ⟨_, henough, h⟩ := bind_eq_ok.1 h
    cases h
    exact ⟨header,
      { room := hlength ▸ hroom
        signatures := okOrError_eq_ok.1 hsignatures
        message := rfl
        headerAt := (msgHeaderOffset_eq_ok hdata).1 hheader
        required := hrequired
        keys := (accountKeys_eq_ok hdata (by omega)).1 hkeys
        enough := Nat.not_lt.1 (refuseIf_eq_ok.1 henough) }⟩
  · rintro ⟨header, h⟩
    have hinside := h.headerAt.lt
    have hrequired := h.required.1
    have hmessage := h.message
    refine bind_eq_ok.2 ⟨1 + sizeOfSignature, okOrError_eq_ok.2 (within_eq_some.2 ?_), ?_⟩
    · exact ⟨rfl, hlength ▸ h.room⟩
    refine bind_eq_ok.2 ⟨(offsets.sigLen, offsets.sigStart), okOrError_eq_ok.2 h.signatures, ?_⟩
    refine bind_eq_ok.2 ⟨offsets.msgStart, okOrError_eq_ok.2 ?_, ?_⟩
    · exact checkedMulAdd_eq_some.2 ⟨by omega, hmessage⟩
    refine bind_eq_ok.2 ⟨header, (msgHeaderOffset_eq_ok hdata).2 h.headerAt, ?_⟩
    refine bind_eq_ok.2 ⟨offsets.sigLen, (requiredSignatures_eq_ok hdata).2 h.required, ?_⟩
    refine bind_eq_ok.2 ⟨(), refuseIf_eq_ok.2 (not_not.2 rfl), ?_⟩
    refine bind_eq_ok.2 ⟨(offsets.pubkeyLen, offsets.pubkeyStart), ?_, ?_⟩
    · exact (accountKeys_eq_ok hdata (by omega)).2 h.keys
    exact bind_eq_ok.2 ⟨(), refuseIf_eq_ok.2 (Nat.not_lt.2 h.enough), rfl⟩

lemma offsetsInPacket_data (h : offsetsInPacket packet = .ok offsets) :
    ∃ bytes header, packet.data = some bytes ∧ Located bytes header offsets := by
  cases hdata : packet.data with
  | none =>
    obtain ⟨_, -, h⟩ := bind_eq_ok.1 h
    obtain ⟨_, hsignatures, -⟩ := bind_eq_ok.1 h
    rw [hdata] at hsignatures
    cases hsignatures
  | some bytes =>
    obtain ⟨header, hlocated⟩ := (offsetsInPacket_eq_ok hdata).1 h
    exact ⟨bytes, header, rfl, hlocated⟩

namespace Located

section

variable (h : Located bytes header offsets)

include h

lemma msgStart_lt : offsets.msgStart < bytes.length := h.headerAt.lt

lemma signatures_end : offsets.sigStart + sizeOfSignature * offsets.sigLen = offsets.msgStart := by
  rw [h.message, Nat.mul_comm, Nat.add_comm]

lemma keys_end : offsets.pubkeyStart + sizeOfPubkey * offsets.sigLen ≤ bytes.length := by
  have hle := Nat.mul_le_mul_left sizeOfPubkey h.enough
  have hkeys := h.keys.1
  rw [Nat.mul_comm] at hkeys
  omega

lemma sigLen_pos : 0 < offsets.sigLen := by
  obtain ⟨-, required, readonlySigned, -, -, hlt, hlen⟩ := h.required
  rw [hlen]
  exact (Nat.zero_le _).trans_lt (UInt8.lt_iff_toNat_lt.1 hlt)

end

end Located

def shiftOffsets (currentOffset : Nat) (offsets : PacketOffsets) : PacketOffsets where
  sigLen := offsets.sigLen
  sigStart := currentOffset + offsets.sigStart
  msgStart := currentOffset + offsets.msgStart
  pubkeyStart := currentOffset + offsets.pubkeyStart
  pubkeyLen := offsets.pubkeyLen

lemma doGetPacketOffsets_eq {currentOffset : Nat}
    (hfits : currentOffset + packetDataSize ≤ u32Max) :
    doGetPacketOffsets packet currentOffset =
      (offsetsInPacket packet).map (shiftOffsets currentOffset) := by
  unfold doGetPacketOffsets
  cases hoffsets : offsetsInPacket packet with
  | error e => rfl
  | ok offsets =>
    obtain ⟨bytes, header, hdata, hlocated⟩ := offsetsInPacket_data hoffsets
    obtain ⟨-, -, -, hsize⟩ := data_eq_some hdata
    have hmessage := hlocated.msgStart_lt
    have hsignatures := hlocated.signatures_end
    have hkeys := hlocated.keys.1
    have henough := hlocated.enough
    have hmax : u32Max ≤ u64Max := by decide
    simp only [sizeOfSignature, sizeOfPubkey] at hsignatures hkeys
    have hadd : ∀ {n}, n ≤ bytes.length →
        checkedAddU64 currentOffset n = some (currentOffset + n) := fun hle =>
      checkedAddU64_eq_some.2 ⟨by omega, rfl⟩
    have hword : ∀ {n}, n ≤ u32Max → tryU32 n = .ok n := fun hle => tryU32_eq_ok.2 ⟨hle, rfl⟩
    refine bind_eq_ok.2 ⟨offsets, rfl, ?_⟩
    refine bind_eq_ok.2 ⟨_, okOrError_eq_ok.2 (hadd (by omega)), ?_⟩
    refine bind_eq_ok.2 ⟨_, okOrError_eq_ok.2 (hadd hmessage.le), ?_⟩
    refine bind_eq_ok.2 ⟨_, okOrError_eq_ok.2 (hadd (by omega)), ?_⟩
    refine bind_eq_ok.2 ⟨_, hword (by omega), ?_⟩
    refine bind_eq_ok.2 ⟨_, hword (by omega), ?_⟩
    refine bind_eq_ok.2 ⟨_, hword (by omega), ?_⟩
    refine bind_eq_ok.2 ⟨_, hword (by omega), ?_⟩
    exact bind_eq_ok.2 ⟨_, hword (by omega), rfl⟩

end Nuah.Proofs
