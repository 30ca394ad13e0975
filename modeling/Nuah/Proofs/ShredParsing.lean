import Nuah.Shred

/-!
# What a parsed shred says of its bytes

Inversion of the readers of headers and of the parsers of the four kinds of shreds, and the
arithmetic of the Merkle layouts.
-/

namespace Nuah.Proofs

open ByteStrings Codecs ShredResult MerkleLayout

variable {bytes : ByteString} {offset n : Nat} {layout : MerkleLayout} {variant : ShredVariant}
  {proofSize : UInt8} {chained resigned : Bool} {shred : ShredCode}

variable {α β : Type}

variable {e : ShredError} {a : α} {h : ShredCommonHeader}

lemma orFail_eq_ok {o : Option α} : orFail e o = .ok a ↔ o = some a := by
  cases o <;> simp [orFail, fail]

lemma ok?_eq_some {x : ShredResult α} : x.ok? = some a ↔ x = .ok a := by
  cases x <;> simp [ok?]

lemma ok?_bind (x : ShredResult α) (f : α → ShredResult β) :
    (x >>= f).ok? = x.ok?.bind fun a => (f a).ok? := by
  cases x <;> rfl

@[simp] lemma ok?_orFail (e : ShredError) (o : Option α) : (orFail e o).ok? = o := by
  cases o <;> rfl

@[simp] lemma ok?_ok (a : α) : ok? (.ok a) = some a := rfl

lemma wordAt_take {width : Nat} (h : offset + width ≤ n) :
    wordAt (bytes.take n) offset width = wordAt bytes offset width := by
  rw [wordAt, slice_take h, wordAt]

lemma signatureAt_take (h : offset + 64 ≤ n) :
    signatureAt (bytes.take n) offset = signatureAt bytes offset := by
  unfold signatureAt
  by_cases hlength : offset + 64 ≤ bytes.length
  · have hlength' : offset + 64 ≤ (bytes.take n).length := by
      rw [List.length_take]
      omega
    rw [dif_pos hlength, dif_pos hlength']
    refine congrArg some (Subtype.ext ?_)
    change ((bytes.take n).drop offset).take 64 = _
    rw [List.drop_take, List.take_take, min_eq_left (by omega)]
  · rw [dif_neg hlength, dif_neg]
    rw [List.length_take]
    omega

structure ReadsCommon (bytes : ByteString) (h : ShredCommonHeader) : Prop where
  signature : signatureAt bytes 0 = some h.signature
  variant : (bytes[64]?).bind ShredVariant.ofByte = some h.shredVariant
  slot : u64At bytes 65 = some h.slot
  index : u32At bytes 73 = some h.index
  version : u16At bytes 77 = some h.version
  fecSetIndex : u32At bytes 79 = some h.fecSetIndex

lemma deserialize_common_iff :
    ShredCommonHeader.deserialize bytes = .ok h ↔ ReadsCommon bytes h := by
  rw [ShredCommonHeader.deserialize, orFail_eq_ok]
  simp only [Option.bind_eq_bind, Option.bind_eq_some_iff]
  constructor
  · rintro ⟨signature, hsignature, variant, hvariant, slot, hslot, index, hindex, version,
      hversion, fecSetIndex, hfec, ⟨⟩⟩
    exact ⟨hsignature, Option.bind_eq_some_iff.2 hvariant, hslot, hindex, hversion, hfec⟩
  · intro hread
    exact ⟨_, hread.signature, _, Option.bind_eq_some_iff.1 hread.variant, _, hread.slot, _,
      hread.index, _, hread.version, _, hread.fecSetIndex, rfl⟩

structure ReadsData (bytes : ByteString) (h : DataShredHeader) : Prop where
  parentOffset : u16At bytes 83 = some h.parentOffset
  flags : bytes[85]? = some h.flags
  size : u16At bytes 86 = some h.size

lemma deserialize_data_iff {h : DataShredHeader} :
    DataShredHeader.deserialize bytes = .ok h ↔ ReadsData bytes h := by
  rw [DataShredHeader.deserialize, orFail_eq_ok]
  simp only [Option.bind_eq_bind, Option.bind_eq_some_iff]
  constructor
  · rintro ⟨parentOffset, hparent, flags, hflags, size, hsize, ⟨⟩⟩
    exact ⟨hparent, hflags, hsize⟩
  · intro hread
    exact ⟨_, hread.parentOffset, _, hread.flags, _, hread.size, rfl⟩

structure ReadsCoding (bytes : ByteString) (h : CodingShredHeader) : Prop where
  numDataShreds : u16At bytes 83 = some h.numDataShreds
  numCodingShreds : u16At bytes 85 = some h.numCodingShreds
  position : u16At bytes 87 = some h.position

lemma deserialize_coding_iff {h : CodingShredHeader} :
    CodingShredHeader.deserialize bytes = .ok h ↔ ReadsCoding bytes h := by
  rw [CodingShredHeader.deserialize, orFail_eq_ok]
  simp only [Option.bind_eq_bind, Option.bind_eq_some_iff]
  constructor
  · rintro ⟨numData, hdata, numCoding, hcoding, position, hposition, ⟨⟩⟩
    exact ⟨hdata, hcoding, hposition⟩
  · intro hread
    exact ⟨_, hread.numDataShreds, _, hread.numCodingShreds, _, hread.position, rfl⟩

lemma ReadsCommon.of_take (hn : 83 ≤ n) (hread : ReadsCommon (bytes.take n) h) :
    ReadsCommon bytes h where
  signature := by rw [← hread.signature, signatureAt_take (by omega)]
  variant := by rw [← hread.variant, List.getElem?_take_of_lt (by omega)]
  slot := by rw [← hread.slot, u64At, u64At, wordAt_take (by omega)]
  index := by rw [← hread.index, u32At, u32At, wordAt_take (by omega)]
  version := by rw [← hread.version, u16At, u16At, wordAt_take (by omega)]
  fecSetIndex := by rw [← hread.fecSetIndex, u32At, u32At, wordAt_take (by omega)]

lemma ReadsData.of_take {h : DataShredHeader} (hn : 88 ≤ n) (hread : ReadsData (bytes.take n) h) :
    ReadsData bytes h where
  parentOffset := by rw [← hread.parentOffset, u16At, u16At, wordAt_take (by omega)]
  flags := by rw [← hread.flags, List.getElem?_take_of_lt (by omega)]
  size := by rw [← hread.size, u16At, u16At, wordAt_take (by omega)]

lemma variantParameters_eq_ok {parameters : UInt8 × Bool × Bool} :
    layout.variantParameters variant = .ok parameters ↔
      layout.parameters variant = some parameters :=
  orFail_eq_ok

lemma data_parameters :
    data.parameters variant = some (proofSize, chained, resigned) ↔
      variant = .merkleData proofSize chained resigned := by
  cases variant <;> simp [data]

lemma code_parameters :
    code.parameters variant = some (proofSize, chained, resigned) ↔
      variant = .merkleCode proofSize chained resigned := by
  cases variant <;> simp [code]

/-- The headers, the buffer, the chained root, the proof and the retransmitter's signature fill the
payload. -/
lemma capacity_eq_ok :
    layout.capacity proofSize chained resigned = .ok n ↔ (chained = true ∨ resigned = false) ∧
      layout.sizeOfHeaders + n + (if chained then 32 else 0) + proofSize.toNat * 20 +
        (if resigned then 64 else 0) = layout.sizeOfPayload := by
  unfold capacity
  rw [bind_eq_ok]
  simp only [assertOrPanic_eq_ok, orFail_eq_ok, checkedSub_eq_some, Bool.or_eq_true, Bool.not_eq_true',
    sizeOfMerkleRoot, sizeOfMerkleProofEntry, sizeOfShredSignature]
  constructor
  · rintro ⟨_, hchained, hle, rfl⟩
    exact ⟨hchained, by omega⟩
  · rintro ⟨hchained, hsum⟩
    exact ⟨(), hchained, by omega, by omega⟩

lemma getProofOffset_eq_ok (h : layout.getProofOffset proofSize chained resigned = .ok offset) :
    ∃ n, layout.capacity proofSize chained resigned = .ok n ∧
      offset = layout.sizeOfHeaders + n + (if chained then 32 else 0) := by
  obtain ⟨n, hn, h⟩ := bind_eq_ok.1 h
  cases h
  exact ⟨n, hn, rfl⟩

lemma proofOffset_add_le (h : layout.getProofOffset proofSize chained resigned = .ok offset) :
    offset + proofSize.toNat * 20 ≤ layout.sizeOfPayload := by
  obtain ⟨n, hn, rfl⟩ := getProofOffset_eq_ok h
  have hsum := (capacity_eq_ok.1 hn).2
  omega

lemma ok?_getMerkleProof (bytes : ByteString) (offset : Nat) (proofSize : UInt8) :
    (getMerkleProof bytes offset proofSize).ok? =
      (slice bytes offset (offset + proofSize.toNat * 20)).map (proofEntries proofSize.toNat) := by
  rw [getMerkleProof, ok?_bind, ok?_orFail]
  change (slice bytes offset (offset + proofSize.toNat * 20)).bind _ = _
  cases slice bytes offset (offset + proofSize.toNat * 20) <;> rfl

lemma ok?_getMerkleNode (hash : HashFunction) (bytes : ByteString) (start stop : Nat) :
    (getMerkleNode hash bytes start stop).ok? =
      (slice bytes start stop).map fun node => hash (merkleHashPrefixLeaf ++ node) := by
  rw [getMerkleNode, ok?_bind, ok?_orFail]
  cases slice bytes start stop <;> rfl

lemma shardIndex?_iff {index : Nat} : shred.shardIndex? = some index ↔
    0 < shred.codingHeader.numDataShreds.toNat ∧
      shred.commonHeader.fecSetIndex.toNat + shred.codingHeader.numDataShreds.toNat ≤ 32768 ∧
      shred.codingHeader.position.toNat ≤ shred.commonHeader.index.toNat ∧
      shred.commonHeader.index.toNat - shred.codingHeader.position.toNat +
        shred.codingHeader.numCodingShreds.toNat ≤ 32768 ∧
      shred.codingHeader.position.toNat < shred.codingHeader.numCodingShreds.toNat ∧
      index = shred.codingHeader.position.toNat + shred.codingHeader.numDataShreds.toNat := by
  have hmax : u32Max = 2 ^ 32 - 1 := rfl
  have hslot : maxDataShredsPerSlot = 32768 := rfl
  have hslot' : maxCodeShredsPerSlot = 32768 := rfl
  have hguard : ∀ (p : Prop) [Decidable p] (u : Unit), (guard p : Option Unit) = some u ↔ p := by
    intro p _ u
    by_cases h : p <;> simp [guard, h]
  unfold ShredCode.shardIndex? ShredCode.firstCodingIndex
  simp only [Option.bind_eq_bind, Option.bind_eq_some_iff, checkedSub_eq_some, checkedAddU32,
    Option.ite_none_right_eq_some, Option.some.injEq, hguard]
  constructor
  · rintro ⟨_, ⟨hdata, rfl⟩, _, ⟨-, rfl⟩, -, hlast, _, ⟨hposition, rfl⟩, _, ⟨hcoding, rfl⟩, _,
      ⟨-, rfl⟩, -, hlast', hlt, rfl⟩
    exact ⟨by omega, by omega, hposition, by omega, by omega, rfl⟩
  · rintro ⟨hdata, hlast, hposition, hlast', hlt, rfl⟩
    exact ⟨_, ⟨hdata, rfl⟩, _, ⟨by omega, rfl⟩, (), by omega, _, ⟨hposition, rfl⟩, _,
      ⟨by omega, rfl⟩, _, ⟨by omega, rfl⟩, (), by omega, by omega, rfl⟩

lemma legacyData_fromPayload {shred : ShredData} (h : LegacyData.fromPayload bytes = .ok shred) :
    ReadsCommon bytes shred.commonHeader ∧ shred.commonHeader.shredVariant = .legacyData ∧
      ReadsData bytes shred.dataHeader ∧ 88 ≤ bytes.length ∧ shred.payload = resize bytes 1228 ∧
      LegacyData.sanitize shred = .ok () := by
  obtain ⟨common, hcommon, h⟩ := bind_eq_ok.1 h
  obtain ⟨hvariant, h⟩ := ite_error_eq_ok.1 h
  obtain ⟨header, hheader, h⟩ := bind_eq_ok.1 h
  obtain ⟨hlength, h⟩ := ite_error_eq_ok.1 h
  obtain ⟨_, hsanitize, h⟩ := bind_eq_ok.1 h
  cases h
  exact ⟨deserialize_common_iff.1 hcommon, not_not.1 hvariant, deserialize_data_iff.1 hheader,
    not_lt.1 hlength, rfl, hsanitize⟩

lemma legacyCode_fromPayload (h : LegacyCode.fromPayload bytes = .ok shred) :
    ReadsCommon bytes shred.commonHeader ∧ shred.commonHeader.shredVariant = .legacyCode ∧
      ReadsCoding bytes shred.codingHeader ∧ shred.payload = bytes.take 1228 ∧
      LegacyCode.sanitize shred = .ok () := by
  obtain ⟨common, hcommon, h⟩ := bind_eq_ok.1 h
  obtain ⟨hvariant, h⟩ := ite_error_eq_ok.1 h
  obtain ⟨header, hheader, h⟩ := bind_eq_ok.1 h
  obtain ⟨_, hsanitize, h⟩ := bind_eq_ok.1 h
  cases h
  exact ⟨deserialize_common_iff.1 hcommon, not_not.1 hvariant, deserialize_coding_iff.1 hheader,
    rfl, hsanitize⟩

lemma merkleData_fromPayload {shred : ShredData} (h : MerkleData.fromPayload bytes = .ok shred) :
    ReadsCommon bytes shred.commonHeader ∧ ReadsData bytes shred.dataHeader ∧
      MerkleData.sizeOfPayload ≤ bytes.length ∧
      shred.payload = bytes.take MerkleData.sizeOfPayload ∧
      MerkleData.sanitize shred = .ok () := by
  obtain ⟨hlength, h⟩ := ite_error_eq_ok.1 h
  obtain ⟨common, hcommon, h⟩ := bind_eq_ok.1 h
  obtain ⟨_, -, h⟩ := bind_eq_ok.1 h
  obtain ⟨header, hheader, h⟩ := bind_eq_ok.1 h
  obtain ⟨_, hsanitize, h⟩ := bind_eq_ok.1 h
  cases h
  exact ⟨(deserialize_common_iff.1 hcommon).of_take (by decide),
    (deserialize_data_iff.1 hheader).of_take (by decide), not_lt.1 hlength, rfl, hsanitize⟩

lemma merkleCode_fromPayload (h : MerkleCode.fromPayload bytes = .ok shred) :
    ReadsCommon bytes shred.commonHeader ∧ ReadsCoding bytes shred.codingHeader ∧
      MerkleCode.sizeOfPayload ≤ bytes.length ∧
      shred.payload = bytes.take MerkleCode.sizeOfPayload ∧
      MerkleCode.sanitize shred = .ok () := by
  obtain ⟨common, hcommon, h⟩ := bind_eq_ok.1 h
  obtain ⟨_, -, h⟩ := bind_eq_ok.1 h
  obtain ⟨header, hheader, h⟩ := bind_eq_ok.1 h
  obtain ⟨hlength, h⟩ := ite_error_eq_ok.1 h
  obtain ⟨_, hsanitize, h⟩ := bind_eq_ok.1 h
  cases h
  exact ⟨deserialize_common_iff.1 hcommon, deserialize_coding_iff.1 hheader, not_lt.1 hlength,
    rfl, hsanitize⟩

end Nuah.Proofs
