import Nuah.CompactVotes

/-!
# Compact vote state updates are canonical

A vote state update has one compact representation, if its lockouts are in order, and the
representation is read back as that update.
-/

namespace Nuah.Proofs

open ByteStrings Codecs CompactVotes Codec List

variable {slot : Slot} {lockout : Lockout} {offset : LockoutOffset} {lockouts : List Lockout}
  {offsets : List LockoutOffset} {update : VoteStateUpdate} {compact : CompactVoteStateUpdate}

/-- The fields are within the ranges of their types. -/
structure Typed (update : VoteStateUpdate) : Prop where
  root : ∀ root, update.root = some root → root ≤ u64Max
  slot : ∀ lockout ∈ update.lockouts, lockout.slot ≤ u64Max
  confirmationCount : ∀ lockout ∈ update.lockouts, lockout.confirmationCount ≤ u32Max
  hash : update.hash < 2 ^ 256
  timestamp : ∀ time : Int, update.timestamp = some time → -2 ^ 63 ≤ time ∧ time < 2 ^ 63

/-- Lockouts that have a compact representation: in order from the root, with counts of one byte. -/
structure Compactable (update : VoteStateUpdate) : Prop where
  ordered : (update.root.getD 0 :: update.lockouts.map Lockout.slot).Pairwise (· ≤ ·)
  counts : ∀ lockout ∈ update.lockouts, lockout.confirmationCount ≤ 255
  length : update.lockouts.length ≤ 65535

lemma lockoutOffset_eq_ok :
    lockoutOffset slot lockout = .ok offset ↔
      slot ≤ lockout.slot ∧ lockout.confirmationCount ≤ u8Max ∧
        offset = ⟨lockout.slot - slot, UInt8.ofNat lockout.confirmationCount⟩ := by
  unfold lockoutOffset checkedSub
  by_cases hle : slot ≤ lockout.slot
  · rw [if_pos hle]
    by_cases hcount : lockout.confirmationCount ≤ u8Max
    · simp [hle, hcount, eq_comm]
    · simp [hcount]
  · rw [if_neg hle]
    simp [hle]

lemma lockoutAt_eq_ok :
    lockoutAt slot offset = .ok lockout ↔
      slot + offset.offset ≤ u64Max ∧
        lockout = ⟨slot + offset.offset, offset.confirmationCount.toNat⟩ := by
  unfold lockoutAt checkedAddU64
  by_cases hle : slot + offset.offset ≤ u64Max
  · simp [hle, eq_comm, Lockout.newWithConfirmationCount]
  · simp [hle]

lemma lockoutAt_lockoutOffset (h : lockoutOffset slot lockout = .ok offset)
    (hslot : lockout.slot ≤ u64Max) :
    lockoutAt slot offset = .ok lockout := by
  obtain ⟨hle, hcount, rfl⟩ := lockoutOffset_eq_ok.1 h
  have hsum : slot + (lockout.slot - slot) = lockout.slot := Nat.add_sub_cancel' hle
  have hbyte : (UInt8.ofNat lockout.confirmationCount).toNat = lockout.confirmationCount :=
    UInt8.toNat_ofNat_of_lt' (lt_of_le_of_lt hcount (by decide))
  refine lockoutAt_eq_ok.2 ⟨?_, ?_⟩
  · dsimp only
    rw [hsum]
    exact hslot
  · dsimp only
    rw [hsum, hbyte]

lemma lockoutOffset_lockoutAt (h : lockoutAt slot offset = .ok lockout) :
    lockoutOffset slot lockout = .ok offset ∧ lockout.slot ≤ u64Max := by
  obtain ⟨hle, rfl⟩ := lockoutAt_eq_ok.1 h
  refine ⟨lockoutOffset_eq_ok.2 ⟨Nat.le_add_right _ _, ?_, ?_⟩, hle⟩
  · exact Nat.le_of_lt_succ offset.confirmationCount.toNat_lt
  · dsimp only
    rw [Nat.add_sub_cancel_left, UInt8.ofNat_toNat]

lemma lockoutsAt_lockoutOffsets (h : lockoutOffsets slot lockouts = .ok offsets)
    (hslots : ∀ lockout ∈ lockouts, lockout.slot ≤ u64Max) :
    lockoutsAt slot offsets = .ok lockouts := by
  induction lockouts generalizing slot offsets with
  | nil =>
    cases h
    rfl
  | cons lockout lockouts ih =>
    obtain ⟨hslot, hrest⟩ := forall_mem_cons.1 hslots
    obtain ⟨offset, hoffset, h⟩ := bind_eq_ok.1 h
    obtain ⟨offsets, hoffsets, h⟩ := bind_eq_ok.1 h
    cases h
    refine bind_eq_ok.2 ⟨lockout, lockoutAt_lockoutOffset hoffset hslot, ?_⟩
    exact bind_eq_ok.2 ⟨lockouts, ih hoffsets hrest, rfl⟩

lemma lockoutOffsets_lockoutsAt (h : lockoutsAt slot offsets = .ok lockouts) :
    lockoutOffsets slot lockouts = .ok offsets ∧ ∀ lockout ∈ lockouts, lockout.slot ≤ u64Max := by
  induction offsets generalizing slot lockouts with
  | nil =>
    cases h
    exact ⟨rfl, fun _ h => absurd h not_mem_nil⟩
  | cons offset offsets ih =>
    obtain ⟨lockout, hlockout, h⟩ := bind_eq_ok.1 h
    obtain ⟨lockouts, hlockouts, h⟩ := bind_eq_ok.1 h
    cases h
    obtain ⟨hoffset, hslot⟩ := lockoutOffset_lockoutAt hlockout
    obtain ⟨hoffsets, hslots⟩ := ih hlockouts
    refine ⟨bind_eq_ok.2 ⟨offset, hoffset, ?_⟩, forall_mem_cons.2 ⟨hslot, hslots⟩⟩
    exact bind_eq_ok.2 ⟨offsets, hoffsets, rfl⟩

lemma lockoutOffsets_isOk_iff :
    (∃ offsets, lockoutOffsets slot lockouts = .ok offsets) ↔
      (slot :: lockouts.map Lockout.slot).Pairwise (· ≤ ·) ∧
        ∀ lockout ∈ lockouts, lockout.confirmationCount ≤ 255 := by
  induction lockouts generalizing slot with
  | nil => simp [lockoutOffsets]
  | cons lockout lockouts ih =>
    rw [map_cons, pairwise_cons, forall_mem_cons, forall_mem_cons]
    constructor
    · rintro ⟨_, h⟩
      obtain ⟨offset, hoffset, h⟩ := bind_eq_ok.1 h
      obtain ⟨offsets, hoffsets, -⟩ := bind_eq_ok.1 h
      obtain ⟨hle, hcount, -⟩ := lockoutOffset_eq_ok.1 hoffset
      obtain ⟨hordered, hcounts⟩ := ih.1 ⟨offsets, hoffsets⟩
      refine ⟨⟨⟨hle, fun other hother => ?_⟩, hordered⟩, hcount, hcounts⟩
      exact hle.trans ((pairwise_cons.1 hordered).1 other hother)
    · rintro ⟨⟨⟨hle, -⟩, hordered⟩, hcount, hcounts⟩
      obtain ⟨offsets, hoffsets⟩ := ih.2 ⟨hordered, hcounts⟩
      have hoffset := lockoutOffset_eq_ok.2 ⟨hle, hcount, rfl⟩
      exact ⟨_, bind_eq_ok.2 ⟨_, hoffset, bind_eq_ok.2 ⟨offsets, hoffsets, rfl⟩⟩⟩

lemma lockoutOffsets_bound (h : lockoutOffsets slot lockouts = .ok offsets)
    (hslots : ∀ lockout ∈ lockouts, lockout.slot ≤ u64Max) :
    offsets.length = lockouts.length ∧ ∀ offset ∈ offsets, offset.offset ≤ u64Max := by
  induction lockouts generalizing slot offsets with
  | nil =>
    cases h
    exact ⟨rfl, fun _ h => absurd h not_mem_nil⟩
  | cons lockout lockouts ih =>
    obtain ⟨hslot, hrest⟩ := forall_mem_cons.1 hslots
    obtain ⟨offset, hoffset, h⟩ := bind_eq_ok.1 h
    obtain ⟨offsets, hoffsets, h⟩ := bind_eq_ok.1 h
    cases h
    obtain ⟨hle, -, rfl⟩ := lockoutOffset_eq_ok.1 hoffset
    obtain ⟨hlength, hbound⟩ := ih hoffsets hrest
    refine ⟨congrArg (· + 1) hlength, forall_mem_cons.2 ⟨?_, hbound⟩⟩
    exact (Nat.sub_le _ _).trans hslot

lemma toCompact_eq_ok :
    toCompact update = .ok compact ↔
      ∃ offsets, lockoutOffsets (update.root.getD 0) update.lockouts = .ok offsets ∧
        compact = ⟨update.root.getD u64Max, offsets, update.hash, update.timestamp⟩ := by
  unfold toCompact
  rw [bind_eq_ok]
  exact exists_congr fun offsets => and_congr_right fun _ => by rw [Except.ok.injEq, eq_comm]

lemma ofCompact_toCompact (htyped : Typed update) (hroot : update.root ≠ some u64Max)
    (h : toCompact update = .ok compact) : ofCompact compact = .ok update := by
  obtain ⟨offsets, hoffsets, rfl⟩ := toCompact_eq_ok.1 h
  have hback : (if update.root.getD u64Max ≠ u64Max then some (update.root.getD u64Max) else none) =
      update.root := by
    cases hopt : update.root with
    | none => rfl
    | some root =>
      have hne : root ≠ u64Max := fun heq => hroot (heq ▸ hopt)
      exact if_pos hne
  unfold ofCompact
  simp only [hback]
  exact bind_eq_ok.2 ⟨_, lockoutsAt_lockoutOffsets hoffsets htyped.slot, rfl⟩

lemma toCompact_ofCompact (h : ofCompact compact = .ok update) :
    toCompact update = .ok compact ∧ update.root ≠ some u64Max ∧
      (∀ root, update.root = some root → root = compact.root) ∧
      ∀ lockout ∈ update.lockouts, lockout.slot ≤ u64Max := by
  unfold ofCompact at h
  obtain ⟨lockouts, hlockouts, h⟩ := bind_eq_ok.1 h
  cases h
  obtain ⟨hoffsets, hslots⟩ := lockoutOffsets_lockoutsAt hlockouts
  refine ⟨toCompact_eq_ok.2 ⟨_, hoffsets, ?_⟩, ?_, ?_, hslots⟩
  · by_cases hroot : compact.root = u64Max
    · simp only [hroot, ne_eq, not_true_eq_false, if_false, Option.getD_none]
      rw [← hroot]
    · simp [hroot]
  · dsimp only
    split_ifs with hroot
    · exact fun heq => hroot (Option.some.inj heq)
    · simp
  · intro root heq
    dsimp only at heq
    split_ifs at heq
    exact (Option.some.inj heq).symm

lemma lockoutOffset_codec_exact : LockoutOffset.codec.Exact :=
  map_exact (pair_exact (SerdeVarint.varInt_exact (by decide)) byte_exact)
    (fun _ => rfl) fun _ => rfl

lemma compact_codec_exact : CompactVoteStateUpdate.codec.Exact :=
  map_exact
    (pair_exact (word_exact 8)
      (pair_exact (counted_exact ShortVec.shortU16_exact lockoutOffset_codec_exact)
        (pair_exact (bigEndian_exact 32)
          (option_exact (signedWord_exact 8)))))
    (fun _ => rfl) fun _ => rfl

lemma write_ite_isSome_iff {p : Prop} [Decidable p] {bytes : ByteString} :
    (∃ bytes', (if p then some bytes else none) = some bytes') ↔ p := by
  by_cases hp : p <;> simp [hp]

lemma write_compact_isSome_iff :
    (∃ bytes, CompactVoteStateUpdate.codec.write compact = some bytes) ↔
      compact.root < 256 ^ 8 ∧
      (compact.lockoutOffsets.length ≤ u16Max ∧
        ∀ offset ∈ compact.lockoutOffsets, offset.offset < 2 ^ 64) ∧
      compact.hash < 256 ^ 32 ∧
      ∀ time : Int, compact.timestamp = some time → -2 ^ 64 ≤ 2 * time ∧ 2 * time < 2 ^ 64 := by
  have hoffset : ∀ offset, (∃ bytes, LockoutOffset.codec.write offset = some bytes) ↔
      offset.offset < 2 ^ 64 := by
    intro offset
    refine write_pair_isSome_iff.trans ?_
    refine (and_iff_left ⟨[offset.confirmationCount], rfl⟩).trans ?_
    exact write_ite_isSome_iff
  have hoffsets : (∃ bytes, (ShortVec.shortVec LockoutOffset.codec).write
      compact.lockoutOffsets = some bytes) ↔ compact.lockoutOffsets.length ≤ u16Max ∧
        ∀ offset ∈ compact.lockoutOffsets, offset.offset < 2 ^ 64 := by
    simp only [ShortVec.write_shortVec_eq_some, ← hoffset, ← writeAll_isSome_iff]
    constructor
    · rintro ⟨_, hlength, back, hback, -⟩
      exact ⟨hlength, back, hback⟩
    · rintro ⟨hlength, back, hback⟩
      exact ⟨_, hlength, back, hback, rfl⟩
  refine write_pair_isSome_iff.trans (and_congr write_ite_isSome_iff ?_)
  refine write_pair_isSome_iff.trans (and_congr hoffsets ?_)
  refine write_pair_isSome_iff.trans (and_congr write_ite_isSome_iff ?_)
  refine write_option_isSome_iff.trans ?_
  exact forall_congr' fun time => imp_congr_right fun _ => write_signedWord_isSome_iff

lemma serialize_eq_ok {bytes : ByteString} :
    serialize update = .ok bytes ↔
      ∃ compact, toCompact update = .ok compact ∧
        CompactVoteStateUpdate.codec.write compact = some bytes := by
  unfold serialize
  rw [bind_eq_ok]
  refine exists_congr fun compact => and_congr_right fun _ => ?_
  cases CompactVoteStateUpdate.codec.write compact with
  | none => simp
  | some _ => rw [Except.ok.injEq, Option.some.injEq]

lemma deserialize_eq_ok {input rest : ByteString} :
    deserialize input = .ok (update, rest) ↔
      ∃ compact, CompactVoteStateUpdate.codec.read input = some (compact, rest) ∧
        ofCompact compact = .ok update := by
  unfold deserialize
  cases CompactVoteStateUpdate.codec.read input with
  | none => simp
  | some found =>
    obtain ⟨compact, rest'⟩ := found
    simp only [bind_eq_ok, Except.ok.injEq, Prod.mk.injEq, Option.some.injEq]
    constructor
    · rintro ⟨update', hof, rfl, rfl⟩
      exact ⟨compact, ⟨rfl, rfl⟩, hof⟩
    · rintro ⟨_, ⟨rfl, rfl⟩, hof⟩
      exact ⟨update, hof, rfl, rfl⟩

lemma serialize_isOk_iff (htyped : Typed update) :
    (∃ bytes, serialize update = .ok bytes) ↔ Compactable update := by
  constructor
  · rintro ⟨bytes, h⟩
    obtain ⟨compact, hcompact, hwrite⟩ := serialize_eq_ok.1 h
    obtain ⟨offsets, hoffsets, rfl⟩ := toCompact_eq_ok.1 hcompact
    obtain ⟨hordered, hcounts⟩ := lockoutOffsets_isOk_iff.1 ⟨offsets, hoffsets⟩
    have hlength := (write_compact_isSome_iff.1 ⟨bytes, hwrite⟩).2.1.1
    refine ⟨hordered, hcounts, ?_⟩
    rw [← (lockoutOffsets_bound hoffsets htyped.slot).1]
    exact hlength
  · intro h
    obtain ⟨offsets, hoffsets⟩ := lockoutOffsets_isOk_iff.2 ⟨h.ordered, h.counts⟩
    obtain ⟨hlength, hbound⟩ := lockoutOffsets_bound hoffsets htyped.slot
    have hwrite : ∃ bytes, CompactVoteStateUpdate.codec.write
        ⟨update.root.getD u64Max, offsets, update.hash, update.timestamp⟩ = some bytes := by
      refine write_compact_isSome_iff.2 ⟨?_, ⟨hlength.le.trans h.length, ?_⟩, ?_, ?_⟩
      · dsimp only
        cases hroot : update.root with
        | none => decide
        | some root => exact Nat.lt_succ_of_le (htyped.root root hroot)
      · exact fun offset hoffset => Nat.lt_succ_of_le (hbound offset hoffset)
      · exact htyped.hash
      · intro time htime
        have := htyped.timestamp time htime
        omega
    obtain ⟨bytes, hwrite⟩ := hwrite
    exact ⟨bytes, serialize_eq_ok.2 ⟨_, toCompact_eq_ok.2 ⟨offsets, hoffsets, rfl⟩, hwrite⟩⟩

/-- An update with no root at the largest slot can be written if and only if its lockouts are in
order from the root, with counts of one byte and a length of two. Writing and reading are inverse.
-/
theorem compactUpdates_bijective :
    (∀ update, Typed update → update.root ≠ some u64Max →
      ((∃ bytes, serialize update = .ok bytes) ↔ Compactable update) ∧
      ∀ bytes, serialize update = .ok bytes → deserialize bytes = .ok (update, [])) ∧
    ∀ bytes update, deserialize bytes = .ok (update, []) →
      Typed update ∧ update.root ≠ some u64Max ∧ serialize update = .ok bytes := by
  constructor
  · intro update htyped hroot
    refine ⟨serialize_isOk_iff htyped, fun bytes h => ?_⟩
    obtain ⟨compact, hcompact, hwrite⟩ := serialize_eq_ok.1 h
    have hread := compact_codec_exact [] hwrite
    rw [append_nil] at hread
    exact deserialize_eq_ok.2 ⟨compact, hread, ofCompact_toCompact htyped hroot hcompact⟩
  · intro bytes update h
    obtain ⟨compact, hread, hof⟩ := deserialize_eq_ok.1 h
    obtain ⟨bytes', hwrite, hbytes⟩ := CompactVoteStateUpdate.codec.canonical hread
    rw [append_nil] at hbytes
    obtain ⟨hcompact, hne, hroot, hslots⟩ := toCompact_ofCompact hof
    obtain ⟨offsets, hoffsets, heq⟩ := toCompact_eq_ok.1 hcompact
    obtain ⟨hlt, -, hhash, htime⟩ := write_compact_isSome_iff.1 ⟨bytes', hwrite⟩
    have hcounts := (lockoutOffsets_isOk_iff.1 ⟨offsets, hoffsets⟩).2
    refine ⟨⟨?_, hslots, ?_, ?_, ?_⟩, hne, ?_⟩
    · intro root hsome
      rw [hroot root hsome]
      exact Nat.le_of_lt_succ hlt
    · exact fun lockout hlockout => (hcounts lockout hlockout).trans (by decide)
    · rw [heq] at hhash
      exact hhash
    · intro time hsome
      have := htime time (by rw [heq]; exact hsome)
      omega
    · exact serialize_eq_ok.2 ⟨compact, hcompact, hbytes ▸ hwrite⟩

/-- Votes above a root, with a time before the epoch. -/
def rootedUpdate : VoteStateUpdate := ⟨[⟨7, 3⟩, ⟨7, 2⟩, ⟨1000, 1⟩], some 5, 11, some (-1)⟩

theorem rootedUpdate_compact :
    ∃ bytes, serialize rootedUpdate = .ok bytes ∧ deserialize bytes = .ok (rootedUpdate, []) := by
  have htyped : Typed rootedUpdate := by
    refine ⟨?_, by decide, by decide, by decide, ?_⟩
    · rintro _ ⟨⟩
      decide
    · rintro _ ⟨⟩
      decide
  obtain ⟨hiff, hback⟩ := compactUpdates_bijective.1 rootedUpdate htyped (by decide)
  obtain ⟨bytes, hbytes⟩ := hiff.2 ⟨by decide, by decide, by decide⟩
  exact ⟨bytes, hbytes, hback bytes hbytes⟩

end Nuah.Proofs
