import Nuah.VoteStateParser

/-!
# The readers of the vote state parser

Each reader of the parser reads what the codec of its type does.
-/

namespace Nuah.Proofs

open ByteStrings Codecs VoteCodecs Cursor Codec List Option

def orInvalid {α : Type} : Option α → Parse α
  | some x => .ok x
  | none => invalidAccountData

section

variable {α β γ σ : Type} {c : Codec α} {d : Codec β} {cursor : Cursor}

variable {next : σ → Parse γ}

variable {reader : Parse σ}

lemma bind_reader {o : Option σ} {post : σ → Option γ}
    (hreader : reader = orInvalid o) (hnext : ∀ x, next x = orInvalid (post x)) :
    (reader >>= next) = orInvalid (o.bind post) := by
  rw [hreader]
  cases o with
  | none => rfl
  | some x => exact hnext x

variable {post : (α × β) × Cursor → Option γ}

/-- A reader of the first part of a pair that goes on with the second part. -/
lemma bind_pair {store : α × Cursor → Option σ}
    (hreader : reader = orInvalid ((cursor.decode c).bind store))
    (hnext : ∀ x cursor', cursor.decode c = some (x, cursor') →
      (orInvalid (store (x, cursor')) >>= next) =
        orInvalid ((cursor'.decode d).bind fun (y, cursor) => post ((x, y), cursor))) :
    (reader >>= next) = orInvalid ((cursor.decode (c.pair d)).bind post) := by
  rw [hreader, decode_pair]
  cases hdecode : cursor.decode c with
  | none => rfl
  | some found =>
    refine (hnext found.1 found.2 hdecode).trans ?_
    change _ = orInvalid (((found.2.decode d).map _).bind post)
    cases found.2.decode d <;> rfl

lemma bind_pair_map {store : α × Cursor → σ}
    (hreader : reader = orInvalid ((cursor.decode c).map store))
    (hnext : ∀ x cursor', cursor.decode c = some (x, cursor') → next (store (x, cursor')) =
      orInvalid ((cursor'.decode d).bind fun (y, cursor) => post ((x, y), cursor))) :
    (reader >>= next) = orInvalid ((cursor.decode (c.pair d)).bind post) :=
  bind_pair (hreader.trans (congrArg orInvalid map_eq_bind)) hnext

lemma bind_pair_id {reader : Parse (α × Cursor)} {next : α × Cursor → Parse γ}
    (hreader : reader = orInvalid (cursor.decode c)) (hnext : ∀ x cursor, next (x, cursor) =
      orInvalid ((cursor.decode d).bind fun (y, cursor) => post ((x, y), cursor))) :
    (reader >>= next) = orInvalid ((cursor.decode (c.pair d)).bind post) :=
  bind_pair_map (hreader.trans (congrArg orInvalid (map_id_apply).symm)) fun x cursor _ =>
    hnext x cursor

end

section

variable (cursor : Cursor)

include cursor

lemma readExact_eq {n : Nat} (hn : 0 < n) :
    readExact cursor n = orInvalid ((readBytes n cursor.rest).map fun (bytes, rest) =>
      (bytes, cursor.leave rest)) := by
  have hlength : cursor.rest.length = cursor.input.length - cursor.position := length_drop
  unfold readExact
  split_ifs with hle
  · rw [readBytes, if_pos (by omega), map_some]
    have hleave : cursor.leave (cursor.rest.drop n) =
        { cursor with position := cursor.position + n } := by
      unfold leave
      rw [length_drop, hlength]
      congr 1
      omega
    dsimp only
    rw [hleave]
    rfl
  · rw [readBytes, if_neg (by omega)]
    rfl

lemma readWord_eq {n : Nat} (hn : 0 < n) :
    readWord n cursor = orInvalid (cursor.decode (word n)) := by
  unfold readWord
  rw [readExact_eq cursor hn]
  change _ = orInvalid (((readBytes n cursor.rest).map _).map _)
  cases readBytes n cursor.rest <;> rfl

lemma readU8_eq : readU8 cursor = orInvalid (cursor.decode (word 1)) :=
  readWord_eq cursor (by decide)

lemma readU32_eq : readU32 cursor = orInvalid (cursor.decode (word 4)) :=
  readWord_eq cursor (by decide)

lemma readU64_eq : readU64 cursor = orInvalid (cursor.decode u64) :=
  readWord_eq cursor (by decide)

lemma readPubkey_eq : readPubkey cursor = orInvalid (cursor.decode pubkey) := by
  unfold readPubkey
  rw [readExact_eq cursor (by decide)]
  change _ = orInvalid (((readBytes 32 cursor.rest).map _).map _)
  cases readBytes 32 cursor.rest <;> rfl

lemma readI64_eq : readI64 cursor = orInvalid (cursor.decode (signedWord 8)) := by
  unfold readI64
  rw [readExact_eq cursor (by decide)]
  change _ = orInvalid ((((readBytes 8 cursor.rest).map _).bind _).map _)
  cases hread : readBytes 8 cursor.rest with
  | none => rfl
  | some found =>
    obtain ⟨bytes, rest⟩ := found
    have hlt := ofLeBytes_lt bytes
    rw [(readBytes_eq_some hread).1] at hlt
    have hsigned : ofTwosComplement (8 * 8) (ofLeBytes bytes) =
        some (if ofLeBytes bytes < 2 ^ 63 then (ofLeBytes bytes : Int)
          else (ofLeBytes bytes : Int) - 2 ^ 64) := by
      unfold ofTwosComplement
      split_ifs <;> first | rfl | omega
    simp only [map_some, bind_some, hsigned]
    rfl

lemma readU8_tag :
    readU8 cursor = orInvalid (match cursor.rest with
      | [] => none
      | b :: rest => some (b.toNat, cursor.leave rest)) := by
  rw [readU8_eq]
  congr 1
  change ((readBytes 1 cursor.rest).map _).map _ = _
  cases cursor.rest with
  | nil => rfl
  | cons b rest =>
    change some (b.toNat + 256 * 0, cursor.leave rest) = _
    rw [Nat.mul_zero, Nat.add_zero]

end

lemma byte_cases (b : UInt8) : b = 0 ∨ b = 1 ∨ b ≠ 0 ∧ b ≠ 1 ∧ 2 ≤ b.toNat := by
  revert b
  decide +kernel

section

variable (cursor : Cursor)

include cursor

lemma readBool_eq : readBool cursor = orInvalid (cursor.decode bool) := by
  unfold readBool
  rw [readU8_tag]
  change _ = orInvalid (((byte.read cursor.rest).bind _).map _)
  cases cursor.rest with
  | nil => rfl
  | cons b rest =>
    rcases byte_cases b with rfl | rfl | ⟨hzero, hone, hlarge⟩
    · rfl
    · rfl
    · obtain ⟨n, hn⟩ := Nat.exists_eq_add_of_le' hlarge
      change (orInvalid (some (b.toNat, cursor.leave rest)) >>= _) =
        orInvalid (((boolOfByte b).map _).map _)
      rw [boolOfByte, if_neg hzero, if_neg hone, hn]
      rfl

lemma readOptionU64_eq : readOptionU64 cursor = orInvalid (cursor.decode u64.option) := by
  have hleave : ∀ b rest, cursor.rest = b :: rest → (cursor.leave rest).rest = rest :=
    fun b rest h => rest_leave (show cursor.rest = [b] ++ rest from h)
  unfold readOptionU64
  rw [readU8_tag]
  change _ = orInvalid ((u64.option.read cursor.rest).map _)
  cases hrest : cursor.rest with
  | nil => rfl
  | cons b rest =>
    rcases byte_cases b with rfl | rfl | ⟨hzero, hone, hlarge⟩
    · rfl
    · change (readU64 (cursor.leave rest) >>= fun x => .ok (some x.1, x.2)) =
        orInvalid (((u64.read rest).map _).map _)
      rw [readU64_eq]
      unfold decode
      rw [hleave 1 rest hrest]
      cases u64.read rest <;> rfl
    · obtain ⟨n, hn⟩ := Nat.exists_eq_add_of_le' hlarge
      change (orInvalid (some (b.toNat, cursor.leave rest)) >>= _) =
        orInvalid ((if b = 0 then _ else if b = 1 then _ else none).map _)
      rw [if_neg hzero, if_neg hone, hn]
      rfl

lemma readLockout_eq (latency : Nat) :
    (do
      let (slot, cursor) ← readU64 cursor
      let (confirmationCount, cursor) ← readU32 cursor
      .ok ((⟨latency, Lockout.newWithConfirmationCount slot confirmationCount⟩ : LandedVote),
        cursor)) =
      orInvalid ((cursor.decode lockout).bind fun (lockout, cursor) =>
        some ((⟨latency, lockout⟩ : LandedVote), cursor)) := by
  rw [lockout, decode_map, bind_map]
  refine bind_pair_id (readU64_eq cursor) fun slot cursor => ?_
  exact bind_reader (readU32_eq cursor) fun _ => rfl

lemma readVote_true :
    readVote true cursor = orInvalid ((cursor.decode landedVote).bind fun (vote, cursor) =>
      some (id vote, cursor)) := by
  rw [landedVote, decode_map, bind_map]
  refine bind_pair_id (readU8_eq cursor) fun latency cursor => ?_
  exact readLockout_eq cursor latency

lemma readVote_false :
    readVote false cursor = orInvalid ((cursor.decode lockout).bind fun (lockout, cursor) =>
      some (LandedVote.fromLockout lockout, cursor)) :=
  readLockout_eq cursor 0

end

/-- A counted loop that stores each item before it goes on. -/
lemma readVec_eq {ι : Type} {item : Codec ι}
    (loop : Nat → Cursor → VoteState → Parse (VoteState × Cursor))
    (store : VoteState → List ι → VoteState) (hnil : ∀ vs, store vs [] = vs)
    (hcons : ∀ vs x items, store (store vs [x]) items = store vs (x :: items))
    (hzero : ∀ cursor vs, loop 0 cursor vs = .ok (vs, cursor))
    (hsucc : ∀ n cursor vs (post : ι × Cursor → Option (VoteState × Cursor)),
      (∀ x cursor, loop n cursor (store vs [x]) = orInvalid (post (x, cursor))) →
      loop (n + 1) cursor vs = orInvalid ((cursor.decode item).bind post))
    (cursor : Cursor) (vs : VoteState) :
    (do
      let (count, cursor) ← readU64 cursor
      loop count cursor vs) =
      orInvalid ((cursor.decode (vec item)).map fun (items, cursor) =>
        (store vs items, cursor)) := by
  have hloop : ∀ n cursor vs, loop n cursor vs = orInvalid ((decodeMany item n cursor).bind
      fun (items, cursor) => some (store vs items, cursor)) := by
    intro n
    induction n with
    | zero =>
      intro cursor vs
      simp [hzero, decodeMany, hnil, orInvalid]
    | succ n ih =>
      intro cursor vs
      rw [hsucc n cursor vs (fun (x, cursor) => (decodeMany item n cursor).bind
        fun (items, cursor) => some (store (store vs [x]) items, cursor)) fun x cursor => ih cursor _,
        decodeMany, bind_assoc]
      simp [hcons, bind_map]
  rw [vec, decode_counted, map_eq_bind, bind_assoc]
  exact bind_reader (readU64_eq cursor) fun (n, cursor) => hloop n cursor vs

lemma readVotesInto_eq {ν : Type} {vote : Codec ν} {landed : ν → LandedVote} {hasLatency : Bool}
    (hvote : ∀ cursor, readVote hasLatency cursor =
      orInvalid ((cursor.decode vote).bind fun (v, cursor) => some (landed v, cursor)))
    (cursor : Cursor) (vs : VoteState) :
    readVotesInto cursor vs hasLatency =
      orInvalid ((cursor.decode (vec vote)).map fun (votes, cursor) =>
        ({ vs with votes := vs.votes ++ votes.map landed }, cursor)) := by
  refine readVec_eq (readVotes hasLatency)
    (fun vs votes => { vs with votes := vs.votes ++ votes.map landed }) (by simp) (by simp) (fun _ _ => rfl) ?_ cursor vs
  intro n cursor vs post h
  rw [readVotes, hvote]
  cases cursor.decode vote with
  | none => rfl
  | some found => exact h found.1 found.2

variable (cursor : Cursor)

variable (vs : VoteState)

lemma readAuthorizedVotersInto_eq (hempty : vs.authorizedVoters = []) :
    readAuthorizedVotersInto cursor vs =
      orInvalid ((cursor.decode (vec (u64.pair pubkey))).map fun (pairs, cursor) =>
        ({ vs with authorizedVoters := AuthorizedVoters.collect pairs }, cursor)) := by
  unfold AuthorizedVoters.collect
  rw [← hempty]
  refine readVec_eq readAuthorizedVoters (fun vs pairs => { vs with
      authorizedVoters := pairs.foldl (fun voters (epoch, pubkey) =>
        KeyedLists.insert epoch pubkey voters) vs.authorizedVoters })
    (fun _ => rfl) (fun _ _ _ => rfl) (fun _ _ => rfl) ?_ cursor vs
  intro n cursor vs post h
  refine bind_pair_id (readU64_eq cursor) fun epoch cursor => ?_
  exact bind_reader (readPubkey_eq cursor) fun (voter, cursor) => h (epoch, voter) cursor

lemma readEpochCreditsInto_eq :
    readEpochCreditsInto cursor vs =
      orInvalid ((cursor.decode epochCredits).map fun (credits, cursor) =>
        ({ vs with epochCredits := vs.epochCredits ++ credits }, cursor)) := by
  refine readVec_eq readEpochCredits
    (fun vs credits => { vs with epochCredits := vs.epochCredits ++ credits }) (by simp) (by simp) (fun _ _ => rfl) ?_ cursor vs
  intro n cursor vs post h
  refine bind_pair_id (readU64_eq cursor) fun epoch cursor => ?_
  refine bind_pair_id (readU64_eq cursor) fun credits cursor => ?_
  exact bind_reader (readU64_eq cursor) fun (prev, cursor) => h (epoch, credits, prev) cursor

lemma readLastTimestampInto_eq :
    readLastTimestampInto cursor vs =
      orInvalid ((cursor.decode blockTimestamp).bind fun (timestamp, cursor) =>
        some ({ vs with lastTimestamp := timestamp }, cursor)) := by
  rw [blockTimestamp, decode_map, bind_map]
  refine bind_pair_id (readU64_eq cursor) fun slot cursor => ?_
  exact bind_reader (readI64_eq cursor) fun _ => rfl

def Gapless (items : List (Pubkey × Epoch × Epoch)) : Prop :=
  items.Pairwise fun a b => a = (0, 0, 0) → b = (0, 0, 0)

instance (items : List (Pubkey × Epoch × Epoch)) : Decidable (Gapless items) := by
  unfold Gapless
  infer_instance

lemma readPriorVoter_eq : readPriorVoter cursor = orInvalid (cursor.decode priorVoter) := by
  rw [← bind_fun_some (cursor.decode priorVoter)]
  refine bind_pair_id (readPubkey_eq cursor) fun voter cursor => ?_
  refine bind_pair_id (readU64_eq cursor) fun fromEpoch cursor => ?_
  exact bind_reader (readU64_eq cursor) fun _ => rfl

lemma storePriorVoter_eq (done : List (Pubkey × Epoch × Epoch)) (item : Pubkey × Epoch × Epoch)
    (left : Nat) (encountered : Bool) :
    storePriorVoter (done ++ List.replicate (left + 1) (0, 0, 0)) done.length item encountered =
      if encountered = true ∧ item ≠ (0, 0, 0) then invalidAccountData
      else .ok (done ++ [item] ++ List.replicate left (0, 0, 0),
        encountered || decide (item = (0, 0, 0))) := by
  unfold storePriorVoter
  rw [replicate_succ]
  by_cases hnull : item = (0, 0, 0)
  · simp [hnull]
  · cases encountered with
    | true => simp [hnull]
    | false => simp [hnull]

lemma readPriorVoters_eq (left : Nat) (cursor : Cursor) (done : List (Pubkey × Epoch × Epoch))
    (encountered : Bool) :
    readPriorVoters left done.length cursor (done ++ List.replicate left (0, 0, 0)) encountered =
      orInvalid ((decodeMany priorVoter left cursor).bind fun (items, cursor) =>
        if Gapless items ∧ (encountered = true → ∀ item ∈ items, item = (0, 0, 0)) then
          some (done ++ items, cursor) else none) := by
  induction left generalizing cursor done encountered with
  | zero =>
    change _ = orInvalid (if _ then _ else _)
    rw [if_pos ⟨List.Pairwise.nil, fun _ _ h => absurd h not_mem_nil⟩]
    rfl
  | succ left ih =>
    rw [readPriorVoters, readPriorVoter_eq, decodeMany]
    cases cursor.decode priorVoter with
    | none => rfl
    | some found =>
      obtain ⟨item, cursor⟩ := found
      change (storePriorVoter _ done.length item encountered >>= fun stored =>
        readPriorVoters left (done.length + 1) cursor stored.1 stored.2) = orInvalid
          (((decodeMany priorVoter left cursor).map fun found => (item :: found.1, found.2)).bind _)
      rw [storePriorVoter_eq]
      split_ifs with hgap
      · -- refused, whatever comes
        cases decodeMany priorVoter left cursor with
        | none => rfl
        | some found =>
          have hnot : ¬(Gapless (item :: found.1) ∧
              (encountered = true → ∀ x ∈ item :: found.1, x = (0, 0, 0))) :=
            fun h => hgap.2 (h.2 hgap.1 item mem_cons_self)
          change invalidAccountData = orInvalid (if _ then _ else none)
          rw [if_neg hnot]
          rfl
      · have hnext := ih cursor (done ++ [item]) (encountered || decide (item = (0, 0, 0)))
        rw [length_append, length_singleton] at hnext
        refine hnext.trans ?_
        cases decodeMany priorVoter left cursor with
        | none => rfl
        | some found =>
          obtain ⟨items, cursor⟩ := found
          have hiff : (Gapless items ∧ ((encountered || decide (item = (0, 0, 0))) = true →
                ∀ x ∈ items, x = (0, 0, 0))) ↔
              (Gapless (item :: items) ∧ (encountered = true →
                ∀ x ∈ item :: items, x = (0, 0, 0))) := by
            unfold Gapless
            rw [pairwise_cons, Bool.or_eq_true, decide_eq_true_iff, forall_mem_cons]
            constructor
            · rintro ⟨hpair, hnull⟩
              refine ⟨⟨fun x hx heq => hnull (.inr heq) x hx, hpair⟩, fun henc => ⟨?_, ?_⟩⟩
              · by_contra hne
                exact hgap ⟨henc, hne⟩
              · exact hnull (.inl henc)
            · rintro ⟨⟨hfirst, hpair⟩, hnull⟩
              refine ⟨hpair, ?_⟩
              rintro (henc | heq)
              · exact (hnull henc).2
              · exact fun x hx => hfirst x hx heq
          refine congrArg orInvalid (if_congr hiff ?_ rfl)
          rw [append_assoc, singleton_append]

lemma priorVoter_total : priorVoter.Total 48 :=
  pair_total (bigEndian_total 32)
    (pair_total (word_total 8) (word_total 8))

lemma priorVoters_read (input : ByteString) : priorVoters.read input =
    (((replicated maxItems priorVoter).read input).bind fun (buf, input) =>
      (u64.read input).bind fun (idx, input) => (bool.read input).map
        fun (isEmpty, rest) => (⟨buf, idx, isEmpty⟩, rest)) := by
  change (((replicated maxItems priorVoter).read input).bind _).map _ = _
  cases (replicated maxItems priorVoter).read input with
  | none => rfl
  | some found =>
    change (((u64.read found.2).bind _).bind _).map _ = (u64.read found.2).bind _
    cases u64.read found.2 with
    | none => rfl
    | some found' =>
      change ((((bool.read found'.2).bind _).bind _).map _) =
        (bool.read found'.2).map _
      cases bool.read found'.2 <;> rfl

lemma read_priorVoters (input : ByteString) :
    (1544 ≤ input.length → ∃ buf idx,
      (replicated maxItems priorVoter).read input = some (buf, input.drop 1536) ∧
      u64.read (input.drop 1536) = some (idx, input.drop 1544) ∧
      priorVoters.read input = (bool.read (input.drop 1544)).map fun (isEmpty, rest) =>
        (⟨buf, idx, isEmpty⟩, rest)) ∧
    (input.length < 1544 → priorVoters.read input = none) := by
  have hrep := replicated_total priorVoter_total maxItems input
  constructor
  · intro hle
    obtain ⟨buf, hbuf⟩ := hrep.1 (by change 1536 ≤ _; omega)
    obtain ⟨idx, hidx⟩ := (word_total 8 (input.drop 1536)).1 (by rw [length_drop]; omega)
    rw [drop_drop] at hidx
    refine ⟨buf, idx, hbuf, hidx, ?_⟩
    rw [priorVoters_read, hbuf]
    change (((word 8).read (input.drop 1536)).bind _) = _
    rw [hidx]
    rfl
  · intro hlt
    rw [priorVoters_read]
    rcases Nat.lt_or_ge input.length 1536 with hshort | hge
    · rw [hrep.2 hshort]
      rfl
    · obtain ⟨buf, hbuf⟩ := hrep.1 hge
      rw [hbuf]
      change (((word 8).read (input.drop 1536)).bind _) = _
      rw [(word_total 8 (input.drop 1536)).2 (by rw [length_drop]; omega)]
      rfl

lemma decode_leave_drop {α : Type} {c : Codec α} (n : Nat) :
    (cursor.leave (cursor.rest.drop n)).decode c =
      (c.read (cursor.rest.drop n)).map fun (x, rest) => (x, cursor.leave rest) := by
  unfold decode
  rw [rest_leave (take_append_drop n cursor.rest).symm]
  rfl

lemma readPriorVotersInto_eq (hprior : vs.priorVoters = CircBuf.default _)
    (hend : cursor.position ≤ cursor.input.length) :
    readPriorVotersInto cursor vs =
      orInvalid ((cursor.decode priorVoters).bind fun (c, cursor) =>
        if c.isEmpty then some (vs, cursor)
        else if Gapless c.buf then some ({ vs with priorVoters := c }, cursor)
        else none) := by
  obtain ⟨hlong, hshort⟩ := read_priorVoters cursor.rest
  have hlength : cursor.rest.length = cursor.input.length - cursor.position := length_drop
  have hsize : priorVotersSize vs.priorVoters + cursor.position - 1 = cursor.position + 1544 := by
    rw [hprior]
    change 1545 + cursor.position - 1 = cursor.position + 1544
    omega
  have hflag : ({ cursor with position := cursor.position + 1544 } : Cursor).decode bool =
      (bool.read (cursor.rest.drop 1544)).map fun (x, rest) => (x, cursor.leave rest) := by
    unfold decode rest
    rw [drop_drop]
    rfl
  have hdecode : cursor.decode priorVoters =
      (priorVoters.read cursor.rest).map fun (x, rest) => (x, cursor.leave rest) := rfl
  unfold readPriorVotersInto
  dsimp only
  rw [hsize, readBool_eq, hflag, hdecode]
  rcases Nat.lt_or_ge cursor.rest.length 1544 with hlt | hge
  · rw [hshort hlt, drop_of_length_le (by omega)]
    rfl
  · obtain ⟨buf, idx, hbuf, hidx, hring⟩ := hlong hge
    rw [hring]
    cases hbool : bool.read (cursor.rest.drop 1544) with
    | none => rfl
    | some found =>
      obtain ⟨isEmpty, rest⟩ := found
      cases isEmpty with
      | true => rfl
      | false =>
        change (readPriorVoters maxItems 0 cursor vs.priorVoters.buf false >>= _) =
          orInvalid (if Gapless buf then _ else _)
        have hitems : decodeMany priorVoter maxItems cursor =
            some (buf, cursor.leave (cursor.rest.drop 1536)) := by
          rw [← decode_replicated _ _ _ hend]
          exact map_eq_some_iff.2 ⟨_, hbuf, rfl⟩
        have hread := readPriorVoters_eq maxItems cursor [] false
        rw [hitems] at hread
        rw [hprior]
        refine (congrArg (· >>= _) hread).trans ?_
        change (orInvalid (if Gapless buf ∧ _ then some ([] ++ buf, _) else none) >>= _) = _
        by_cases hgapless : Gapless buf
        · rw [if_pos hgapless, if_pos ⟨hgapless, fun h => absurd h (by decide)⟩]
          change (readU64 (cursor.leave (cursor.rest.drop 1536)) >>= _) = _
          rw [readU64_eq, decode_leave_drop, hidx]
          change (readBool (cursor.leave (cursor.rest.drop 1544)) >>= _) = _
          rw [readBool_eq, decode_leave_drop, hbool]
          rfl
        · rw [if_neg hgapless, if_neg fun h => hgapless h.1]
          rfl

end Nuah.Proofs
