import Nuah.Proofs.ShredParsing

/-!
# The zero-copy accessors agree with the parser

What `shred::layout` reads from the bytes of a shred is what the parser finds. The one exception
is a legacy data shred that was trimmed: the parser pads it, the accessors do not.
-/

namespace Nuah.Proofs

open ByteStrings Codecs ShredResult ShredLayout MerkleCode Option

variable {proofSize : UInt8} {chained resigned : Bool} {shred : Shred}

variable {bytes : ByteString}

variable {variant : ShredVariant} {shard : ShredResult ByteString} {header : ShredCommonHeader}

lemma layoutGetShredVariant_eq_ok :
    layoutGetShredVariant bytes = .ok variant ↔
      (bytes[64]?).bind ShredVariant.ofByte = some variant := by
  unfold layoutGetShredVariant sizeOfShredSignature
  cases bytes[64]? with
  | none => simp [fail]
  | some byte => exact orFail_eq_ok

section

variable (hread : ReadsCommon bytes header)
include hread

lemma getShredVariant_of_reads : getShredVariant bytes = .ok header.shredVariant :=
  layoutGetShredVariant_eq_ok.2 hread.variant

lemma getShredType_of_reads : getShredType bytes = .ok header.shredVariant.shredType := by
  rw [getShredType, getShredVariant_of_reads hread]
  rfl

lemma getSlot_of_reads : getSlot bytes = some header.slot.toNat := by
  rw [getSlot, hread.slot, map_some]

lemma getIndex_of_reads : getIndex bytes = some header.index.toNat := by
  rw [getIndex, hread.index, map_some]

lemma getShredId_of_reads : getShredId bytes =
    some ⟨header.slot.toNat, header.index.toNat, header.shredVariant.shredType⟩ := by
  rw [getShredId, getSlot_of_reads hread, getIndex_of_reads hread, getShredType_of_reads hread]
  rfl

lemma getReferenceTick_of_reads {dataHeader : DataShredHeader} (hdata : ReadsData bytes dataHeader)
    (htype : header.shredVariant.shredType = .data) :
    getReferenceTick bytes =
      .ok (dataHeader.flags &&& ShredFlags.shredTickReferenceMask) := by
  rw [getReferenceTick, getShredType_of_reads hread, htype, hdata.flags]
  rfl

end

variable (hash : HashFunction)

lemma merkleRootAt_eq {layout : MerkleLayout}
    (hvariant : layout.parameters variant = some (proofSize, chained, resigned))
    (shardIndex : ShredResult Nat) :
    merkleRootAt hash layout bytes proofSize chained resigned shardIndex.ok? =
      (layout.merkleRoot hash variant (bytes.take layout.sizeOfPayload) shardIndex).ok? := by
  have hparameters := variantParameters_eq_ok.2 hvariant
  have hsize : layout.proofSize variant = .ok proofSize := by
    rw [MerkleLayout.proofSize, hparameters]
    rfl
  have hoffset : layout.proofOffset variant = layout.getProofOffset proofSize chained resigned := by
    rw [MerkleLayout.proofOffset, hparameters]
    rfl
  simp only [merkleRootAt, MerkleLayout.merkleRoot, hsize, hoffset, ok?_bind, ok?_ok,
    bind_some, bind_eq_bind]
  refine bind_congr fun index _ => bind_congr fun offset hoffset => ?_
  have hle := proofOffset_add_le (ok?_eq_some.1 hoffset)
  rw [ok?_getMerkleProof, ok?_getMerkleProof, slice_take hle, ok?_getMerkleNode, ok?_getMerkleNode,
    slice_take (by omega)]

lemma dataMerkleRoot_eq {shred : ShredData} (hread : ReadsCommon bytes shred.commonHeader)
    (hpayload : shred.payload = bytes.take MerkleData.sizeOfPayload)
    (hvariant : shred.commonHeader.shredVariant = .merkleData proofSize chained resigned) :
    dataMerkleRoot hash bytes proofSize chained resigned =
      (MerkleData.merkleRoot hash shred).ok? := by
  rw [MerkleData.merkleRoot, hpayload]
  refine Eq.trans ?_ (merkleRootAt_eq hash (data_parameters.2 hvariant) shred.erasureShardIndex)
  rw [dataMerkleRoot, hread.fecSetIndex, getIndex_of_reads hread,
    ShredData.erasureShardIndex, ok?_orFail]
  rfl

lemma code_sanitizeAs {shred : ShredCode} {sizeOfPayload : Nat}
    (h : shred.sanitizeAs sizeOfPayload shard = .ok ()) :
    shred.payload.length = sizeOfPayload ∧ shred.commonHeader.index.toNat < maxCodeShredsPerSlot ∧
      shred.codingHeader.numCodingShreds.toNat ≤ 8 * dataShredsPerFecBlock ∧
      (∃ index, shred.shardIndex? = some index) ∧ ∃ bytes, shard = .ok bytes := by
  obtain ⟨hlength, h⟩ := ite_error_eq_ok.1 h
  obtain ⟨hindex, h⟩ := ite_error_eq_ok.1 h
  obtain ⟨hcoding, h⟩ := ite_error_eq_ok.1 h
  obtain ⟨index, hshard, h⟩ := bind_eq_ok.1 h
  obtain ⟨bytes, hbytes, -⟩ := bind_eq_ok.1 h
  exact ⟨not_not.1 hlength, not_le.1 hindex, not_lt.1 hcoding, ⟨index, orFail_eq_ok.1 hshard⟩,
    bytes, hbytes⟩

lemma merkleCode_sanitize {shred : ShredCode} (h : sanitize shred = .ok ()) :
    (∃ proofSize chained resigned,
      shred.commonHeader.shredVariant = .merkleCode proofSize chained resigned) ∧
      (∃ proof, merkleProof shred = .ok proof) ∧
      shred.sanitizeAs sizeOfPayload (erasureShardAsSlice shred) = .ok () := by
  obtain ⟨⟨proofSize, chained, resigned⟩, hvariant, h⟩ := bind_eq_ok.1 h
  obtain ⟨proof, hproof, h⟩ := bind_eq_ok.1 h
  exact ⟨⟨_, _, _, code_parameters.1 (variantParameters_eq_ok.1 hvariant)⟩, ⟨proof, hproof⟩, h⟩

lemma codeMerkleRoot_eq {shred : ShredCode} (hcoding : ReadsCoding bytes shred.codingHeader)
    (hpayload : shred.payload = bytes.take sizeOfPayload) {index : Nat}
    (hindex : shred.shardIndex? = some index)
    (hvariant : shred.commonHeader.shredVariant = .merkleCode proofSize chained resigned) :
    codeMerkleRoot hash bytes proofSize chained resigned =
      (merkleRoot hash shred).ok? := by
  rw [merkleRoot, hpayload]
  refine Eq.trans ?_ (merkleRootAt_eq hash (code_parameters.2 hvariant) shred.erasureShardIndex)
  rw [codeMerkleRoot, hcoding.numDataShreds, hcoding.position,
    ShredCode.erasureShardIndex, ok?_orFail, hindex, (shardIndex?_iff.1 hindex).2.2.2.2.2]
  simp only [bind_eq_bind, bind_some, Nat.add_comm]

section

variable (h : Shred.newFromSerializedShred bytes = .ok shred)

include h

lemma newFromSerializedShred_cases :
    (∃ s, LegacyCode.fromPayload bytes = .ok s ∧ shred = .legacyCode s) ∨
      (∃ s, LegacyData.fromPayload bytes = .ok s ∧ shred = .legacyData s) ∨
      (∃ s, fromPayload bytes = .ok s ∧ shred = .merkleCode s) ∨
      ∃ s, MerkleData.fromPayload bytes = .ok s ∧ shred = .merkleData s := by
  obtain ⟨variant, -, h⟩ := bind_eq_ok.1 h
  cases variant with
  | legacyCode =>
    obtain ⟨s, hs, h⟩ := bind_eq_ok.1 h
    cases h
    exact .inl ⟨s, hs, rfl⟩
  | legacyData =>
    obtain ⟨s, hs, h⟩ := bind_eq_ok.1 h
    cases h
    exact .inr (.inl ⟨s, hs, rfl⟩)
  | merkleCode proofSize chained resigned =>
    obtain ⟨s, hs, h⟩ := bind_eq_ok.1 h
    cases h
    exact .inr (.inr (.inl ⟨s, hs, rfl⟩))
  | merkleData proofSize chained resigned =>
    obtain ⟨s, hs, h⟩ := bind_eq_ok.1 h
    cases h
    exact .inr (.inr (.inr ⟨s, hs, rfl⟩))

lemma readsCommon_of_parsed : ReadsCommon bytes shred.commonHeader := by
  rcases newFromSerializedShred_cases h with
    ⟨s, hs, rfl⟩ | ⟨s, hs, rfl⟩ | ⟨s, hs, rfl⟩ | ⟨s, hs, rfl⟩
  · exact (legacyCode_fromPayload hs).1
  · exact (legacyData_fromPayload hs).1
  · exact (merkleCode_fromPayload hs).1
  · exact (merkleData_fromPayload hs).1

end

lemma merkleData_sanitize_variant {shred : ShredData} (h : MerkleData.sanitize shred = .ok ()) :
    ∃ proofSize chained resigned,
      shred.commonHeader.shredVariant = .merkleData proofSize chained resigned := by
  obtain ⟨⟨proofSize, chained, resigned⟩, hvariant, -⟩ := bind_eq_ok.1 h
  exact ⟨_, _, _, data_parameters.1 (variantParameters_eq_ok.1 hvariant)⟩

lemma getReferenceTick_of_parsed (h : Shred.newFromSerializedShred bytes = .ok shred)
    (htype : shred.shredType = .data) :
    getReferenceTick bytes = .ok shred.referenceTick := by
  rcases newFromSerializedShred_cases h with
    ⟨s, hs, rfl⟩ | ⟨s, hs, rfl⟩ | ⟨s, hs, rfl⟩ | ⟨s, hs, rfl⟩
  · obtain ⟨-, hvariant, -⟩ := legacyCode_fromPayload hs
    have hcode : s.commonHeader.shredVariant.shredType = .data := htype
    rw [hvariant] at hcode
    cases hcode
  · obtain ⟨hread, -, hdata, -⟩ := legacyData_fromPayload hs
    exact getReferenceTick_of_reads hread hdata htype
  · obtain ⟨-, -, -, -, hsanitize⟩ := merkleCode_fromPayload hs
    obtain ⟨⟨_, _, _, hvariant⟩, -⟩ := merkleCode_sanitize hsanitize
    have hcode : s.commonHeader.shredVariant.shredType = .data := htype
    rw [hvariant] at hcode
    cases hcode
  · obtain ⟨hread, hdata, -⟩ := merkleData_fromPayload hs
    exact getReferenceTick_of_reads hread hdata htype

lemma legacyChunk_eq {payload : ByteString} (hpayload : payload = bytes.take 1228)
    (hlength : payload.length = 1228) : slice bytes 64 1228 = some (payload.drop 64) := by
  have hle : 1228 ≤ bytes.length := by
    rw [hpayload, List.length_take] at hlength
    omega
  rw [slice_of_le (by omega) hle, hpayload]

lemma getSignedData_legacy (hread : ReadsCommon bytes header)
    (hvariant : header.shredVariant = .legacyCode ∨ header.shredVariant = .legacyData) :
    getSignedData hash bytes = (slice bytes 64 1228).map .chunk := by
  rw [getSignedData, getShredVariant_of_reads hread]
  rcases hvariant with hvariant | hvariant
  all_goals
    rw [hvariant]
    simp only [ok?_ok, bind_eq_bind, bind_some]
    change (slice bytes 64 1228).bind _ = _
    cases slice bytes 64 1228 <;> rfl

lemma merkleRoot_of_parsed (h : Shred.newFromSerializedShred bytes = .ok shred) :
    ShredLayout.getMerkleRoot hash bytes = (shred.merkleRoot hash).ok? := by
  have hvariant := getShredVariant_of_reads (readsCommon_of_parsed h)
  rw [ShredLayout.getMerkleRoot, hvariant]
  rcases newFromSerializedShred_cases h with
    ⟨s, hs, rfl⟩ | ⟨s, hs, rfl⟩ | ⟨s, hs, rfl⟩ | ⟨s, hs, rfl⟩
  · obtain ⟨-, hlegacy, -⟩ := legacyCode_fromPayload hs
    rw [Shred.commonHeader, hlegacy]
    rfl
  · obtain ⟨-, hlegacy, -⟩ := legacyData_fromPayload hs
    rw [Shred.commonHeader, hlegacy]
    rfl
  · obtain ⟨-, hcoding, -, hpayload, hsanitize⟩ := merkleCode_fromPayload hs
    obtain ⟨⟨proofSize, chained, resigned, hmerkle⟩, -, hchecks⟩ := merkleCode_sanitize hsanitize
    obtain ⟨-, -, -, ⟨index, hindex⟩, -⟩ := code_sanitizeAs hchecks
    rw [Shred.commonHeader, hmerkle]
    exact codeMerkleRoot_eq hash hcoding hpayload hindex hmerkle
  · obtain ⟨hread, -, -, hpayload, hsanitize⟩ := merkleData_fromPayload hs
    obtain ⟨proofSize, chained, resigned, hmerkle⟩ := merkleData_sanitize_variant hsanitize
    rw [Shred.commonHeader, hmerkle]
    exact dataMerkleRoot_eq hash hread hpayload hmerkle

/-- A legacy data shred whose bytes end before its payload does: the parser pads it with zeros. -/
def Trimmed (bytes : ByteString) (shred : Shred) : Prop :=
  shred.commonHeader.shredVariant = .legacyData ∧ bytes.length < LegacyData.sizeOfPayload

instance (bytes : ByteString) (shred : Shred) : Decidable (Trimmed bytes shred) := by
  unfold Trimmed
  infer_instance

lemma getSignedData_merkle (hread : ReadsCommon bytes header)
    (hcode : header.shredVariant ≠ .legacyCode) (hdata : header.shredVariant ≠ .legacyData) :
    ShredLayout.getSignedData hash bytes =
      (ShredLayout.getMerkleRoot hash bytes).map .merkleRoot := by
  rw [ShredLayout.getSignedData, ShredLayout.getMerkleRoot, getShredVariant_of_reads hread]
  rcases hvariant : header.shredVariant with _ | _ | ⟨p, c, r⟩ | ⟨p, c, r⟩
  · exact absurd hvariant hcode
  · exact absurd hvariant hdata
  · change (codeMerkleRoot hash bytes p c r).bind _ = (codeMerkleRoot hash bytes p c r).map _
    cases codeMerkleRoot hash bytes p c r <;> rfl
  · change (dataMerkleRoot hash bytes p c r).bind _ = (dataMerkleRoot hash bytes p c r).map _
    cases dataMerkleRoot hash bytes p c r <;> rfl

lemma sanitize_data_length {shred : ShredData} {sizeOfPayload : Nat}
    {data : ShredResult ByteString} (h : shred.sanitizeAs sizeOfPayload data shard = .ok ()) :
    shred.payload.length = sizeOfPayload :=
  not_not.1 (ite_error_eq_ok.1 h).1

lemma signedData_of_parsed
    (h : Shred.newFromSerializedShred bytes = .ok shred) (htrimmed : ¬ Trimmed bytes shred) :
    ShredLayout.getSignedData hash bytes = (shred.signedData hash).ok? := by
  rcases newFromSerializedShred_cases h with
    ⟨s, hs, rfl⟩ | ⟨s, hs, rfl⟩ | ⟨s, hs, rfl⟩ | ⟨s, hs, rfl⟩
  · obtain ⟨hread, hvariant, -, hpayload, hsanitize⟩ := legacyCode_fromPayload hs
    rw [LegacyCode.sanitize, if_neg (not_not.2 hvariant)] at hsanitize
    have hlength : s.payload.length = 1228 := (code_sanitizeAs hsanitize).1
    rw [getSignedData_legacy hash hread (.inl hvariant), legacyChunk_eq hpayload hlength,
      Shred.signedData, LegacyCode.signedData]
    simp [assertOrPanic, hlength, LegacyCode.sizeOfPayload, sizeOfShredSignature]
  · obtain ⟨hread, hvariant, -, -, hpayload, hsanitize⟩ := legacyData_fromPayload hs
    rw [LegacyData.sanitize, if_neg (not_not.2 hvariant)] at hsanitize
    have hlength : s.payload.length = 1228 := sanitize_data_length hsanitize
    have hfull : 1228 ≤ bytes.length := by
      by_contra hshort
      exact htrimmed ⟨hvariant, by simpa [LegacyData.sizeOfPayload] using hshort⟩
    have hcut : s.payload = bytes.take 1228 := by
      rw [hpayload, resize, Nat.sub_eq_zero_of_le hfull, List.replicate_zero, List.append_nil]
    rw [getSignedData_legacy hash hread (.inr hvariant), legacyChunk_eq hcut hlength,
      Shred.signedData, LegacyData.signedData]
    simp [assertOrPanic, hlength, LegacyData.sizeOfPayload, sizeOfShredSignature]
  · obtain ⟨hread, -, -, -, hsanitize⟩ := merkleCode_fromPayload hs
    obtain ⟨⟨_, _, _, hvariant⟩, -⟩ := merkleCode_sanitize hsanitize
    rw [getSignedData_merkle hash hread (by simp [hvariant]) (by simp [hvariant]),
      merkleRoot_of_parsed hash h, Shred.merkleRoot, Shred.signedData, ok?_bind]
    cases (merkleRoot hash s).ok? <;> rfl
  · obtain ⟨hread, -, -, -, hsanitize⟩ := merkleData_fromPayload hs
    obtain ⟨_, _, _, hvariant⟩ := merkleData_sanitize_variant hsanitize
    rw [getSignedData_merkle hash hread (by simp [hvariant]) (by simp [hvariant]),
      merkleRoot_of_parsed hash h, Shred.merkleRoot, Shred.signedData, ok?_bind]
    cases (MerkleData.merkleRoot hash s).ok? <;> rfl

lemma verify_of_parsed (verifySignature : VerifySignature)
    (h : Shred.newFromSerializedShred bytes = .ok shred) (htrimmed : ¬ Trimmed bytes shred)
    (pubkey : Pubkey) :
    verify hash verifySignature pubkey bytes =
      shred.verify hash verifySignature pubkey := by
  rw [verify, signedData_of_parsed hash h htrimmed, getSignature,
    (readsCommon_of_parsed h).signature, Shred.verify]
  cases shred.signedData hash <;> rfl

/-- The headers of a legacy data shred of slot 0 without data, and nothing after them. -/
def trimmedShred : ByteString :=
  List.replicate 64 0 ++ [0xa5] ++ List.replicate 18 0 ++ [0, 0, 0, 88, 0]

def zeroHash : HashFunction := fun _ => ⟨List.replicate 32 0, by decide⟩

end Nuah.Proofs
