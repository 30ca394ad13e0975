import Nuah.Proofs.ParserReaders

/-!
# The vote state parser agrees with bincode

The parser accepts what bincode reads as one of the two later versions, if there is no gap in the
prior voters, and yields the converted state.
-/

namespace Nuah.Proofs

open ByteStrings Codecs VoteCodecs Codec VoteStateVersions VoteState AuthorizedVoters Cursor List

variable {bytes : ByteString} {c : CircBuf (Pubkey × Epoch × Epoch)}
  {front : List (Pubkey × Epoch × Epoch)}

variable {ν : Type} {vote : Codec ν} {landed : ν → LandedVote} {hasLatency : Bool}

def parsedPriorVoters (c : CircBuf (Pubkey × Epoch × Epoch)) : CircBuf (Pubkey × Epoch × Epoch) :=
  if c.isEmpty then CircBuf.default _ else c

/-- Prior voters that the parser accepts. -/
def Accepted (c : CircBuf (Pubkey × Epoch × Epoch)) : Prop := c.isEmpty = true ∨ Gapless c.buf

instance (c : CircBuf (Pubkey × Epoch × Epoch)) : Decidable (Accepted c) := by
  unfold Accepted
  infer_instance

lemma readCreditFields_eq (cursor : Cursor) (vs : VoteState) (hcredits : vs.epochCredits = []) :
    (do
      let (vs, cursor) ← readEpochCreditsInto cursor vs
      readLastTimestampInto cursor vs) =
      orInvalid ((cursor.decode (epochCredits.pair blockTimestamp)).bind
        fun ((credits, timestamp), cursor) =>
          some ({ vs with epochCredits := credits, lastTimestamp := timestamp }, cursor)) := by
  refine bind_pair_map (readEpochCreditsInto_eq cursor vs) fun credits cursor _ => ?_
  rw [hcredits]
  exact readLastTimestampInto_eq cursor _

lemma readRootFields_eq (cursor : Cursor) (vs : VoteState) (hvoters : vs.authorizedVoters = [])
    (hprior : vs.priorVoters = CircBuf.default _) (hcredits : vs.epochCredits = []) :
    (do
      let (rootSlot, cursor) ← readOptionU64 cursor
      let (vs, cursor) ← readAuthorizedVotersInto cursor { vs with rootSlot := rootSlot }
      let (vs, cursor) ← readPriorVotersInto cursor vs
      let (vs, cursor) ← readEpochCreditsInto cursor vs
      readLastTimestampInto cursor vs) =
      orInvalid ((cursor.decode rootFields).bind
        fun ((root, pairs, prior, credits, timestamp), cursor) =>
          if Accepted prior then
            some ({ vs with
              rootSlot := root
              authorizedVoters := collect pairs
              priorVoters := parsedPriorVoters prior
              epochCredits := credits
              lastTimestamp := timestamp }, cursor)
          else none) := by
  refine bind_pair_id (readOptionU64_eq cursor) fun root cursor => ?_
  refine bind_pair_map (readAuthorizedVotersInto_eq cursor { vs with rootSlot := root } hvoters)
    fun pairs cursor hpairs => ?_
  refine bind_pair (readPriorVotersInto_eq cursor { vs with
    rootSlot := root, authorizedVoters := collect pairs } hprior (position_le_of_decode hpairs))
    fun prior cursor _ => ?_
  have hdone : ∀ prior' : CircBuf (Pubkey × Epoch × Epoch), (do
      let (vs, cursor) ← readEpochCreditsInto cursor { vs with
        rootSlot := root, authorizedVoters := collect pairs, priorVoters := prior' }
      readLastTimestampInto cursor vs) = _ := fun prior' =>
    readCreditFields_eq cursor _ hcredits
  dsimp only
  unfold parsedPriorVoters Accepted
  by_cases hempty : prior.isEmpty = true
  · simp only [hempty, if_true, true_or, ← hprior]
    exact hdone vs.priorVoters
  · by_cases hgapless : Gapless prior.buf
    · simp only [hempty, hgapless, if_true, or_true]
      exact hdone prior
    · -- the parser stops here, and bincode goes on to the end
      simp only [hempty, hgapless, Bool.false_eq_true, if_false, or_self, Option.bind_fun_none]
      rfl

section

def acceptFields (landed : ν → LandedVote) : Fields ν → Option VoteState
  | (node, withdrawer, commission, votes, root, pairs, prior, credits, timestamp) =>
    if Accepted prior then
      some ⟨node, withdrawer, commission, votes.map landed, root, collect pairs,
        parsedPriorVoters prior, credits, timestamp⟩
    else none

lemma deserializeVoteStateInto_eq (hvote : ∀ cursor, readVote hasLatency cursor =
      orInvalid ((cursor.decode vote).bind fun (v, cursor) => some (landed v, cursor)))
    (cursor : Cursor) :
    deserializeVoteStateInto cursor default hasLatency =
      orInvalid ((cursor.decode (fields vote)).bind fun (fs, cursor) =>
        (acceptFields landed fs).map (·, cursor)) := by
  refine bind_pair_id (readPubkey_eq cursor) fun node cursor => ?_
  refine bind_pair_id (readPubkey_eq cursor) fun withdrawer cursor => ?_
  refine bind_pair_id (readU8_eq cursor) fun commission cursor => ?_
  refine bind_pair_map (readVotesInto_eq hvote cursor _) fun votes cursor _ => ?_
  refine (readRootFields_eq cursor _ rfl rfl rfl).trans ?_
  congr 2
  funext ⟨⟨root, pairs, prior, credits, timestamp⟩, cursor⟩
  dsimp only [acceptFields]
  split_ifs <;> rfl

end

lemma fields_atLeast (vote : Codec ν) : (fields vote).AtLeast 1651 := by
  have hu64 : u64.AtLeast 8 := (word_total 8).atLeast
  have hpubkey : pubkey.AtLeast 32 := (bigEndian_total 32).atLeast
  have hbool : bool.AtLeast 1 :=
    convert_atLeast byte_total.atLeast boolOfByte_iff.1
  have htime : blockTimestamp.AtLeast (8 + 8) := map_atLeast (pair_atLeast hu64
    (convert_atLeast (word_total 8).atLeast twosComplement_iff.1)) _
  have hprior : priorVoters.AtLeast (maxItems * 48 + (8 + 1)) :=
    map_atLeast (pair_atLeast
      (replicated_total priorVoter_total maxItems).atLeast (pair_atLeast hu64 hbool)) _
  have hroot : rootFields.AtLeast (1 + (8 + (maxItems * 48 + (8 + 1) + (8 + (8 + 8))))) :=
    pair_atLeast (option_atLeast u64) (pair_atLeast
      (counted_atLeast hu64 _) (pair_atLeast hprior
        (pair_atLeast (counted_atLeast hu64 _) htime)))
  intro input x rest hread
  have hle := pair_atLeast hpubkey (pair_atLeast hpubkey (pair_atLeast
    (word_total 1).atLeast
      (pair_atLeast (counted_atLeast hu64 vote) hroot))) hread
  unfold maxItems at hle
  omega

def parsedState : VoteStateVersions → Option VoteState
  | .v0_23_5 _ => none
  | w =>
    let state := w.convertToCurrent
    if Accepted state.priorVoters then
      some { state with priorVoters := parsedPriorVoters state.priorVoters }
    else none

lemma deserializeVariant_fields (hvote : ∀ cursor, readVote hasLatency cursor =
      orInvalid ((cursor.decode vote).bind fun (v, cursor) => some (landed v, cursor))) {cursor : Cursor}
    {input : ByteString} (hrest : cursor.rest = input) :
    (do
      let (vs, cursor') ← deserializeVoteStateInto cursor default hasLatency
      if cursor.input.length < cursor'.position then invalidAccountData else .ok vs) =
      orInvalid (((fields vote).read input).bind fun (fs, _) => acceptFields landed fs) := by
  rw [deserializeVoteStateInto_eq hvote]
  unfold decode
  rw [hrest]
  cases (fields vote).read input with
  | none => rfl
  | some found =>
    obtain ⟨fs, rest⟩ := found
    change (orInvalid ((acceptFields landed fs).map (·, cursor.leave rest)) >>= _) =
      orInvalid (acceptFields landed fs)
    cases acceptFields landed fs with
    | none => rfl
    | some vs =>
      change (if cursor.input.length < cursor.input.length - rest.length then _ else _) = _
      rw [if_neg (by omega)]
      rfl

lemma deserializeInto_eq (input : ByteString) :
    deserializeInto input default =
      orInvalid ((deserialize input).bind fun (w, _) => parsedState w) := by
  have hsize : default.serializedSize = 1651 := by decide +kernel
  unfold deserializeInto deserialize
  rw [hsize, readU32_eq]
  unfold decode
  change (if input.length < 1651 then _ else (orInvalid (((word 4).read input).map _) >>= _)) =
    orInvalid ((((word 4).read input).bind _).bind _)
  cases hvariant : (word 4).read input with
  | none =>
    split_ifs <;> rfl
  | some found =>
    obtain ⟨variant, input'⟩ := found
    obtain ⟨bytes, -, rfl⟩ := (word 4).canonical hvariant
    have hrest : (leave ⟨bytes ++ input', 0⟩ input').rest = input' :=
      rest_leave (show rest ⟨bytes ++ input', 0⟩ = bytes ++ input' from rfl)
    have hshort : ∀ {ν : Type} (vote : Codec ν), (bytes ++ input').length < 1651 →
        (fields vote).read input' = none := by
      intro ν vote hlt
      cases hread : (fields vote).read input' with
      | none => rfl
      | some found =>
        have hle := fields_atLeast vote hread
        rw [length_append] at hlt
        omega
    match variant with
    | 0 =>
      have hnone : ((VoteCodecs.voteState0_23_5.read input').bind fun found =>
          some (v0_23_5 found.1, found.2)).bind (fun x => parsedState x.1) = none := by
        cases VoteCodecs.voteState0_23_5.read input' <;> rfl
      refine Eq.trans ?_ (congrArg orInvalid hnone).symm
      split_ifs <;> rfl
    | 1 =>
      have hread : ((VoteCodecs.voteState1_14_11.read input').bind fun found =>
          some (v1_14_11 { found.1 with
            authorizedVoters := collect found.1.authorizedVoters }, found.2)).bind
            (fun x => parsedState x.1) =
          ((fields lockout).read input').bind fun x => acceptFields LandedVote.fromLockout x.1 := by
        change ((((fields lockout).read input').map _).bind _).bind _ = _
        cases (fields lockout).read input' <;> rfl
      refine Eq.trans ?_ (congrArg orInvalid hread).symm
      split_ifs with hlt
      · rw [hshort lockout hlt]
        rfl
      · exact deserializeVariant_fields readVote_false hrest
    | 2 =>
      have hread : ((VoteCodecs.voteState.read input').bind fun found =>
          some (current { found.1 with
            authorizedVoters := collect found.1.authorizedVoters }, found.2)).bind
            (fun x => parsedState x.1) =
          ((fields landedVote).read input').bind fun x => acceptFields id x.1 := by
        change ((((fields landedVote).read input').map _).bind _).bind _ = _
        cases (fields landedVote).read input' with
        | none => rfl
        | some found =>
          simp only [Option.map_some, Option.bind_some, parsedState, acceptFields, map_id,
            convertToCurrent]
          rfl
      refine Eq.trans ?_ (congrArg orInvalid hread).symm
      split_ifs with hlt
      · rw [hshort landedVote hlt]
        rfl
      · exact deserializeVariant_fields readVote_true hrest
    | n + 3 =>
      split_ifs <;> rfl

lemma lockout_exact : lockout.Exact :=
  map_exact (pair_exact (word_exact 8) (word_exact 4))
    (fun _ => rfl) fun _ => rfl

lemma landedVote_exact : landedVote.Exact :=
  map_exact (pair_exact (word_exact 1) lockout_exact)
    (fun _ => rfl) fun _ => rfl

lemma fields_exact (hvote : vote.Exact) : (fields vote).Exact := by
  have hu64 : u64.Exact := word_exact 8
  have hpubkey : pubkey.Exact := bigEndian_exact 32
  have hprior : priorVoters.Exact := map_exact
    (pair_exact (replicated_exact (pair_exact hpubkey (pair_exact hu64 hu64)) _)
      (pair_exact hu64 bool_exact)) (fun _ => rfl) fun _ => rfl
  have hcredits : epochCredits.Exact :=
    counted_exact hu64 (pair_exact hu64 (pair_exact hu64 hu64))
  have htime : blockTimestamp.Exact :=
    map_exact (pair_exact hu64 (signedWord_exact 8)) (fun _ => rfl) fun _ => rfl
  have hroot : rootFields.Exact := pair_exact (option_exact hu64)
    (pair_exact (counted_exact hu64 (pair_exact hu64 hpubkey))
      (pair_exact hprior (pair_exact hcredits htime)))
  intro x bytes rest hwrite
  exact (pair_exact hpubkey (pair_exact hpubkey (pair_exact (word_exact 1)
    (pair_exact (counted_exact hu64 hvote) hroot)))) rest hwrite

lemma collect_sorted {voters : AuthorizedVoters} (h : KeyedLists.Sorted voters) :
    collect voters = voters :=
  KeyedLists.foldl_insert_append (show KeyedLists.Sorted ([] ++ voters) from h)

lemma read_variant {n : Nat} (hn : n < 256 ^ 4) (rest : ByteString) :
    (word 4).read (leBytes 4 n ++ rest) = some (n, rest) :=
  word_exact 4 rest (if_pos hn)

lemma deserialize_serialize_current {vs : VoteState}
    (hsorted : KeyedLists.Sorted vs.authorizedVoters)
    (h : serialize (.current vs) = some bytes) (trailing : ByteString) :
    deserialize (bytes ++ trailing) = some (.current vs, trailing) := by
  obtain ⟨body, hbody, rfl⟩ := Option.map_eq_some_iff.1 h
  have hread : voteState.read (body ++ trailing) = some (vs, trailing) :=
    map_exact (fields_exact landedVote_exact) (fun _ => rfl) (fun _ => rfl) trailing hbody
  unfold deserialize
  rw [append_assoc, read_variant (by decide)]
  change ((voteState.read (body ++ trailing)).bind _) = _
  rw [hread, Option.bind_some]
  dsimp only
  rw [collect_sorted hsorted]

lemma deserialize_serialize_v1_14_11 {state : VoteState1_14_11}
    (hsorted : KeyedLists.Sorted state.authorizedVoters)
    (h : serialize (.v1_14_11 state) = some bytes) (trailing : ByteString) :
    deserialize (bytes ++ trailing) = some (.v1_14_11 state, trailing) := by
  obtain ⟨body, hbody, rfl⟩ := Option.map_eq_some_iff.1 h
  have hread : voteState1_14_11.read (body ++ trailing) = some (state, trailing) :=
    map_exact (fields_exact lockout_exact) (fun _ => rfl) (fun _ => rfl) trailing hbody
  unfold deserialize
  rw [append_assoc, read_variant (by decide)]
  change ((voteState1_14_11.read (body ++ trailing)).bind _) = _
  rw [hread, Option.bind_some]
  dsimp only
  rw [collect_sorted hsorted]

def Appended (c : CircBuf (Pubkey × Epoch × Epoch)) : Prop :=
  ∃ items : List (Pubkey × Epoch × Epoch), (∀ item ∈ items, item ≠ (0, 0, 0)) ∧
    c = items.foldl CircBuf.append (CircBuf.default _)

/-- The entries of such a ring are at its front until it is full. -/
structure FilledFront (c : CircBuf (Pubkey × Epoch × Epoch)) (front : List (Pubkey × Epoch × Epoch)) :
    Prop where
  written : ∀ item ∈ front, item ≠ (0, 0, 0)
  buf : c.buf = front ++ List.replicate (maxItems - front.length) (0, 0, 0)
  le : front.length ≤ maxItems
  next : front.length < maxItems → (c.idx + 1) % maxItems = front.length

lemma FilledFront.append (h : FilledFront c front) {item : Pubkey × Epoch × Epoch}
    (hitem : item ≠ (0, 0, 0)) :
    ∃ front', FilledFront (c.append item) front' := by
  have hbuf := h.buf
  rcases h.le.lt_or_eq with hlt | hfull
  · have hnext := h.next hlt
    refine ⟨front ++ [item], ?_, ?_, ?_, ?_⟩
    · exact forall_mem_append.2 ⟨h.written, forall_mem_singleton.2 hitem⟩
    · change c.buf.set ((c.idx + 1) % maxItems) item = _
      have hsucc : maxItems - front.length = maxItems - (front.length + 1) + 1 := by omega
      rw [hnext, hbuf, hsucc, replicate_succ, set_append_right _ _ le_rfl, Nat.sub_self,
        set_cons_zero, length_append, length_singleton, append_assoc,
        singleton_append]
    · rw [length_append, length_singleton]
      omega
    · intro hlt'
      rw [length_append, length_singleton] at hlt' ⊢
      change ((c.idx + 1) % maxItems + 1) % maxItems = _
      rw [hnext, Nat.mod_eq_of_lt hlt']
  · rw [hfull, Nat.sub_self, replicate_zero, append_nil] at hbuf
    refine ⟨front.set ((c.idx + 1) % maxItems) item, ?_, ?_, ?_, ?_⟩
    · intro x hx
      rcases mem_or_eq_of_mem_set hx with hx | rfl
      · exact h.written x hx
      · exact hitem
    · change c.buf.set ((c.idx + 1) % maxItems) item = _
      rw [hbuf, length_set, hfull, Nat.sub_self, replicate_zero, append_nil]
    · rw [length_set, hfull]
    · intro hlt'
      rw [length_set, hfull] at hlt'
      exact absurd hlt' (Nat.lt_irrefl _)

lemma FilledFront.gapless (h : FilledFront c front) : Gapless c.buf := by
  unfold Gapless
  rw [h.buf]
  refine pairwise_append.2 ⟨?_, ?_, ?_⟩
  · exact List.Pairwise.imp_of_mem (fun ha _ _ hnull => absurd hnull (h.written _ ha))
      (pairwise_of_forall (fun _ _ => trivial))
  · exact pairwise_replicate.2 (.inr id)
  · exact fun a ha b _ hnull => absurd hnull (h.written a ha)

lemma Appended.accepted (h : Appended c) : Accepted c ∧ parsedPriorVoters c = c := by
  obtain ⟨items, hitems, rfl⟩ := h
  have hdefault : FilledFront (CircBuf.default (Pubkey × Epoch × Epoch)) [] :=
    ⟨fun _ h => absurd h not_mem_nil, rfl, Nat.zero_le _, fun _ => rfl⟩
  obtain ⟨front, hfront⟩ := foldlRecOn items CircBuf.append
    (motive := fun c => ∃ front, FilledFront c front) ⟨[], hdefault⟩
    fun c ⟨_, hc⟩ item hitem => hc.append (hitems item hitem)
  refine ⟨.inr hfront.gapless, ?_⟩
  cases items using List.reverseRecOn with
  | nil => rfl
  | append_singleton items item _ =>
    rw [foldl_append]
    rfl

/-- The parser does not panic, and yields a state if and only if bincode reads one of the two later
versions with prior voters that are empty or have no gap; the state is then the converted one. -/
theorem deserializeInto_agrees :
    (∀ input vs, deserializeInto input default = .ok vs ↔
      ∃ w rest, deserialize input = some (w, rest) ∧
        (∀ state, w ≠ .v0_23_5 state) ∧ Accepted w.convertToCurrent.priorVoters ∧
        vs = { w.convertToCurrent with
          priorVoters := parsedPriorVoters w.convertToCurrent.priorVoters }) ∧
    (∀ input, deserializeInto input default ≠ .error .panic) ∧
    (∀ vs bytes trailing, Appended vs.priorVoters → KeyedLists.Sorted vs.authorizedVoters →
      serialize (.current vs) = some bytes →
      deserializeInto (bytes ++ trailing) default = .ok vs) ∧
    ∀ state bytes trailing, Appended state.priorVoters →
      KeyedLists.Sorted state.authorizedVoters →
      serialize (.v1_14_11 state) = some bytes →
      deserializeInto (bytes ++ trailing) default =
        .ok (v1_14_11 state).convertToCurrent := by
  have hparsed : ∀ w, (∀ state, w ≠ v0_23_5 state) → parsedState w =
      if Accepted w.convertToCurrent.priorVoters then some { w.convertToCurrent with
        priorVoters := parsedPriorVoters w.convertToCurrent.priorVoters } else none := by
    intro w hw
    cases w with
    | v0_23_5 state => exact absurd rfl (hw state)
    | v1_14_11 state => rfl
    | current state => rfl
  refine ⟨fun input vs => ?_, fun input => ?_, ?_, ?_⟩
  · rw [deserializeInto_eq]
    constructor
    · intro h
      cases hread : deserialize input with
      | none =>
        rw [hread] at h
        cases h
      | some found =>
        obtain ⟨w, rest⟩ := found
        rw [hread, Option.bind_some] at h
        have hw : ∀ state, w ≠ .v0_23_5 state := by
          rintro state rfl
          cases h
        change orInvalid (parsedState w) = _ at h
        rw [hparsed w hw] at h
        split_ifs at h with haccept
        · cases h
          exact ⟨w, rest, rfl, hw, haccept, rfl⟩
        · cases h
    · rintro ⟨w, rest, hread, hw, haccept, rfl⟩
      rw [hread, Option.bind_some]
      change orInvalid (parsedState w) = _
      rw [hparsed w hw, if_pos haccept]
      rfl
  · rw [deserializeInto_eq]
    cases (deserialize input).bind fun (w, _) => parsedState w with
    | none => simp [orInvalid, invalidAccountData]
    | some vs => simp [orInvalid]
  · intro vs bytes trailing hprior hsorted hbytes
    obtain ⟨haccept, hsame⟩ := hprior.accepted
    rw [deserializeInto_eq, deserialize_serialize_current hsorted hbytes, Option.bind_some]
    change orInvalid (if Accepted vs.priorVoters then some { vs with
      priorVoters := parsedPriorVoters vs.priorVoters } else none) = _
    rw [if_pos haccept, hsame]
    rfl
  · intro state bytes trailing hprior hsorted hbytes
    obtain ⟨haccept, hsame⟩ := hprior.accepted
    rw [deserializeInto_eq, deserialize_serialize_v1_14_11 hsorted hbytes, Option.bind_some]
    change orInvalid (if Accepted state.priorVoters then some {
      (v1_14_11 state).convertToCurrent with
        priorVoters := parsedPriorVoters state.priorVoters } else none) = _
    rw [if_pos haccept, hsame]
    rfl

/-- A state that has voted and has changed its voter once. -/
def changedVoter : VoteState :=
  { default with
    nodePubkey := 1
    votes := [⟨1, ⟨5, 2⟩⟩, ⟨0, ⟨6, 1⟩⟩]
    rootSlot := some 4
    authorizedVoters := [(0, 2), (3, 7)]
    priorVoters := (CircBuf.default _).append (2, 0, 3)
    epochCredits := [(0, 1, 0)] }

theorem changedVoter_agrees :
    ∃ bytes, serialize (.current changedVoter) = some bytes ∧
      ∀ trailing, deserializeInto (bytes ++ trailing) default =
        .ok changedVoter := by
  have hsome : (serialize (.current changedVoter)).isSome = true := by
    decide +kernel
  obtain ⟨bytes, hbytes⟩ := Option.isSome_iff_exists.1 hsome
  have happended : Appended changedVoter.priorVoters :=
    ⟨[(2, 0, 3)], by decide, rfl⟩
  have hsorted : KeyedLists.Sorted changedVoter.authorizedVoters := by
    unfold KeyedLists.Sorted
    decide
  exact ⟨bytes, hbytes, fun trailing =>
    deserializeInto_agrees.2.2.1 changedVoter bytes trailing happended hsorted hbytes⟩

end Nuah.Proofs
