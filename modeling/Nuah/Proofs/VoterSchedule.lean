import Nuah.AuthorizedVoters

/-!
# The schedule of authorized voters

The voter of an epoch is that of the latest entry up to it. Looking a voter up caches an entry and
drops older ones, which changes nothing from that epoch on, and a new voter is scheduled after all
entries there are.
-/

namespace Nuah.Proofs

open List hiding contains
open KeyedLists AuthorizedVoters VoteState

variable {voters' : AuthorizedVoters} {target : Epoch}

variable {voters : AuthorizedVoters} {epoch e : Epoch} {pubkey : Pubkey}

variable {ε : Type} {start lse : Nat} {vs : VoteState}

def VoterAt (voters : AuthorizedVoters) (epoch : Epoch) (entry : Epoch × Pubkey) : Prop :=
  entry ∈ voters ∧ entry.1 ≤ epoch ∧ ∀ other ∈ voters, other.1 ≤ epoch → other.1 ≤ entry.1

section

variable (h : Sorted voters)

include h

lemma VoterAt.unique {a b : Epoch × Pubkey} (ha : VoterAt voters epoch a)
    (hb : VoterAt voters epoch b) : a = b :=
  h.eq_of_key_eq ha.1 hb.1
    (Nat.le_antisymm (hb.2.2 a ha.1 ha.2.1) (ha.2.2 b hb.1 hb.2.1))

lemma getOrCalculate_eq_some_iff {existed : Bool} :
    voters.getOrCalculateAuthorizedVoterForEpoch epoch = some (pubkey, existed) ↔
      ∃ key, VoterAt voters epoch (key, pubkey) ∧ existed = decide (key = epoch) := by
  unfold getOrCalculateAuthorizedVoterForEpoch
  cases hfind : voters.find? (·.1 = epoch) with
  | some entry =>
    obtain ⟨hmem, hkey⟩ := h.find?_eq_some_iff.1 hfind
    have hat : VoterAt voters epoch entry := ⟨hmem, hkey.le, fun _ _ hle => hkey ▸ hle⟩
    obtain ⟨key, value⟩ := entry
    simp only [Option.some.injEq, Prod.mk.injEq]
    constructor
    · rintro ⟨rfl, rfl⟩
      exact ⟨key, hat, (decide_eq_true hkey).symm⟩
    · rintro ⟨key', hat', hexisted⟩
      cases hat.unique h hat'
      exact ⟨rfl, hexisted.symm ▸ (decide_eq_true hkey).symm⟩
  | none =>
    have hnone : ∀ entry ∈ voters, entry.1 ≠ epoch := fun entry hentry heq =>
      find?_eq_none.1 hfind entry hentry (decide_eq_true heq)
    have hlast : ∀ entry, (voters.filter (·.1 < epoch)).getLast? = some entry ↔
        VoterAt voters epoch entry := by
      intro entry
      rw [(h.filter _).getLast?_eq_some_iff, mem_filter, decide_eq_true_iff]
      constructor
      · rintro ⟨⟨hmem, hlt⟩, hmax⟩
        refine ⟨hmem, hlt.le, fun other hother hle => hmax other ?_⟩
        exact mem_filter.2 ⟨hother, decide_eq_true (lt_of_le_of_ne hle (hnone other hother))⟩
      · rintro ⟨hmem, hle, hmax⟩
        refine ⟨⟨hmem, lt_of_le_of_ne hle (hnone entry hmem)⟩, fun other hother => ?_⟩
        obtain ⟨hother, hlt⟩ := mem_filter.1 hother
        exact hmax other hother (of_decide_eq_true hlt).le
    simp only [Option.map_eq_some_iff, Prod.mk.injEq]
    constructor
    · rintro ⟨⟨key, value⟩, hget, rfl, rfl⟩
      have hat := (hlast _).1 hget
      exact ⟨key, hat, (decide_eq_false (hnone _ hat.1)).symm⟩
    · rintro ⟨key, hat, rfl⟩
      exact ⟨(key, pubkey), (hlast _).2 hat, rfl, (decide_eq_false (hnone _ hat.1)).symm⟩

lemma getAuthorizedVoter_eq_some_iff :
    voters.getAuthorizedVoter epoch = some pubkey ↔ ∃ key, VoterAt voters epoch (key, pubkey) := by
  unfold getAuthorizedVoter
  rw [Option.map_eq_some_iff]
  constructor
  · rintro ⟨⟨_, existed⟩, hget, rfl⟩
    obtain ⟨key, hat, -⟩ := (getOrCalculate_eq_some_iff h).1 hget
    exact ⟨key, hat⟩
  · rintro ⟨key, hat⟩
    exact ⟨(pubkey, _), (getOrCalculate_eq_some_iff h).2 ⟨key, hat, rfl⟩, rfl⟩

lemma getAuthorizedVoter_congr (h' : Sorted voters')
    (hiff : ∀ pubkey, (∃ key, VoterAt voters' e (key, pubkey)) ↔ ∃ key, VoterAt voters e (key, pubkey)) :
    voters'.getAuthorizedVoter e = voters.getAuthorizedVoter e := by
  ext pubkey
  rw [getAuthorizedVoter_eq_some_iff h', getAuthorizedVoter_eq_some_iff h]
  exact hiff pubkey

end

/-- A map in which the voter of an epoch was cached, and older entries were dropped. -/
structure CachedAt (voters : AuthorizedVoters) (epoch : Epoch) (pubkey : Pubkey)
    (voters' : AuthorizedVoters) : Prop where
  voter : ∃ key, VoterAt voters epoch (key, pubkey)
  sorted : Sorted voters'
  mem : ∀ p, p ∈ voters' ↔ p = (epoch, pubkey) ∨ p ∈ voters ∧ epoch < p.1

section

lemma purge_cachedAt (h : Sorted voters) {key : Epoch} (hat : VoterAt voters epoch (key, pubkey)) :
    ∃ voters', purgeAuthorizedVoters
        (if decide (key = epoch) then voters else insert epoch pubkey voters) epoch =
      some voters' ∧ CachedAt voters epoch pubkey voters' := by
  set cached := if decide (key = epoch) then voters else insert epoch pubkey voters with hcached
  have hmem : ∀ p, p ∈ cached ∧ epoch ≤ p.1 ↔ p = (epoch, pubkey) ∨ p ∈ voters ∧ epoch < p.1 := by
    intro p
    by_cases hkey : key = epoch
    · rw [hcached, if_pos (decide_eq_true hkey)]
      constructor
      · rintro ⟨hp, hle⟩
        rcases hle.eq_or_lt with heq | hlt
        · left
          exact hkey ▸ h.eq_of_key_eq hp hat.1 (hkey ▸ heq.symm)
        · exact .inr ⟨hp, hlt⟩
      · rintro (rfl | ⟨hp, hlt⟩)
        · exact ⟨hkey ▸ hat.1, le_rfl⟩
        · exact ⟨hp, hlt.le⟩
    · rw [hcached, if_neg (by simpa using hkey), mem_insert]
      constructor
      · rintro ⟨rfl | ⟨hp, hne⟩, hle⟩
        · exact .inl rfl
        · exact .inr ⟨hp, lt_of_le_of_ne hle hne.symm⟩
      · rintro (rfl | ⟨hp, hlt⟩)
        · exact ⟨.inl rfl, le_rfl⟩
        · exact ⟨.inr ⟨hp, hlt.ne'⟩, hlt.le⟩
  have hsorted : Sorted cached := by
    rw [hcached]
    split_ifs
    · exact h
    · exact h.insert epoch pubkey
  have hfilter : ∀ p, p ∈ cached.filter (!·.1 < epoch) ↔
      p = (epoch, pubkey) ∨ p ∈ voters ∧ epoch < p.1 := by
    intro p
    rw [← hmem, mem_filter, Bool.not_eq_true', decide_eq_false_iff_not, Nat.not_lt]
  have hne : (cached.filter (!·.1 < epoch)).isEmpty = false := by
    rw [isEmpty_eq_false_iff]
    exact ne_nil_of_mem ((hfilter _).2 (.inl rfl))
  refine ⟨cached.filter (!·.1 < epoch), ?_, ⟨key, hat⟩, hsorted.filter _, hfilter⟩
  unfold purgeAuthorizedVoters
  simp only [hne]
  rfl

lemma getAndUpdate_spec (ε : Type) (h : Sorted vs.authorizedVoters) (epoch : Epoch) :
    (vs.getAndUpdateAuthorizedVoter epoch : Except (Fault (SetVoterError ε)) Pubkey × VoteState) =
      (.error (.err .invalidAccountData), vs) ∨
    ∃ pubkey voters', CachedAt vs.authorizedVoters epoch pubkey voters' ∧
      (vs.getAndUpdateAuthorizedVoter epoch : Except (Fault (SetVoterError ε)) Pubkey × VoteState) =
        (.ok pubkey, { vs with authorizedVoters := voters' }) := by
  unfold getAndUpdateAuthorizedVoter
    getAndCacheAuthorizedVoterForEpoch
  cases hget : getOrCalculateAuthorizedVoterForEpoch vs.authorizedVoters epoch with
  | none => exact .inl rfl
  | some found =>
    obtain ⟨pubkey, existed⟩ := found
    obtain ⟨key, hat, rfl⟩ := (getOrCalculate_eq_some_iff h).1 hget
    obtain ⟨voters', hpurge, hcached⟩ := purge_cachedAt h hat
    refine .inr ⟨pubkey, voters', hcached, ?_⟩
    simp only [Option.map_some, hpurge]

lemma CachedAt.getAuthorizedVoter_eq (h : Sorted voters)
    (hcached : CachedAt voters epoch pubkey voters') (he : epoch ≤ e) :
    voters'.getAuthorizedVoter e = voters.getAuthorizedVoter e := by
  obtain ⟨key, hat⟩ := hcached.voter
  -- the latest entry is either the one cached, or a later one, which is kept
  have hback : ∀ entry, VoterAt voters' e entry → ∃ key, VoterAt voters e (key, entry.2) := by
    intro entry hentry
    rcases (hcached.mem entry).1 hentry.1 with rfl | ⟨hmem, hlt⟩
    · refine ⟨key, hat.1, hat.2.1.trans he, fun other hother hle => ?_⟩
      by_contra hlater
      rcases Nat.lt_or_ge epoch other.1 with hout | hin
      · exact absurd (hentry.2.2 other ((hcached.mem other).2 (.inr ⟨hother, hout⟩)) hle)
          (Nat.not_le.2 hout)
      · exact hlater (hat.2.2 other hother hin)
    · refine ⟨entry.1, hmem, hentry.2.1, fun other hother hle => ?_⟩
      rcases Nat.lt_or_ge epoch other.1 with hout | hin
      · exact hentry.2.2 other ((hcached.mem other).2 (.inr ⟨hother, hout⟩)) hle
      · exact hin.trans hlt.le
  have hforth : ∀ entry, VoterAt voters e entry → ∃ key, VoterAt voters' e (key, entry.2) := by
    intro entry hentry
    rcases Nat.lt_or_ge epoch entry.1 with hlt | hle
    · refine ⟨entry.1, (hcached.mem entry).2 (.inr ⟨hentry.1, hlt⟩), hentry.2.1,
        fun other hother hle => ?_⟩
      rcases (hcached.mem other).1 hother with rfl | ⟨hmem, -⟩
      · exact hlt.le
      · exact hentry.2.2 other hmem hle
    · have heq : entry = (key, pubkey) := VoterAt.unique h
        ⟨hentry.1, hle, fun other hother hle' => hentry.2.2 other hother (hle'.trans he)⟩ hat
      refine ⟨epoch, (hcached.mem _).2 (.inl (by rw [heq])), he, fun other hother hle' => ?_⟩
      rcases (hcached.mem other).1 hother with rfl | ⟨hmem, hlt⟩
      · exact le_rfl
      · exact absurd ((hentry.2.2 other hmem hle').trans hle) (Nat.not_le.2 hlt)
  refine getAuthorizedVoter_congr h hcached.sorted fun pubkey => ⟨?_, ?_⟩
  · rintro ⟨key, hkey⟩
    exact hback _ hkey
  · rintro ⟨key, hkey⟩
    exact hforth _ hkey

lemma getAuthorizedVoter_insert (pubkey : Pubkey) (h : Sorted voters)
    (hlater : ∀ p ∈ voters, p.1 < target) (e : Epoch) :
    getAuthorizedVoter (insert target pubkey voters) e =
      if target ≤ e then some pubkey else voters.getAuthorizedVoter e := by
  have hsorted := h.insert target pubkey
  split_ifs with hle
  · refine (getAuthorizedVoter_eq_some_iff hsorted).2 ⟨target, ?_, hle, ?_⟩
    · exact mem_insert.2 (.inl rfl)
    · intro other hother _
      rcases mem_insert.1 hother with rfl | ⟨hmem, -⟩
      · exact le_rfl
      · exact (hlater other hmem).le
  · refine getAuthorizedVoter_congr h hsorted fun pubkey' => exists_congr fun key => ?_
    constructor
    · rintro ⟨hmem, hkey, hmax⟩
      rcases mem_insert.1 hmem with heq | ⟨hmem, -⟩
      · cases heq
        exact absurd hkey hle
      · refine ⟨hmem, hkey, fun other hother => hmax other ?_⟩
        exact mem_insert.2 (.inr ⟨hother, (hlater other hother).ne⟩)
    · rintro ⟨hmem, hkey, hmax⟩
      refine ⟨mem_insert.2 (.inr ⟨hmem, (hlater _ hmem).ne⟩), hkey, fun other hother hle' => ?_⟩
      rcases mem_insert.1 hother with rfl | ⟨hmem', -⟩
      · exact absurd hle' hle
      · exact hmax other hmem' hle'

end

/-- From the oldest entry of the ring to the newest, each range of epochs begins where the one before
ended. Entries that were not written yet end in epoch zero. -/
structure Contiguous (c : CircBuf (Pubkey × Epoch × Epoch)) : Prop where
  length : c.buf.length = maxItems
  idx : c.idx < maxItems
  empty : c.isEmpty = true → ∀ range ∈ c.buf, range.2.2 = 0
  next : ∀ (i : Nat) (range after : Pubkey × Epoch × Epoch), i ≠ c.idx → c.buf[i]? = some range →
    c.buf[(i + 1) % maxItems]? = some after → range.2.2 ≠ 0 →
      after.2.1 = range.2.2 ∧ range.2.2 < after.2.2

lemma contiguous_append {c : CircBuf (Pubkey × Epoch × Epoch)} (h : Contiguous c)
    (hlater : ∀ range, c.last = some range → range.2.2 < target) :
    Contiguous (c.append (pubkey, (c.last.map (·.2.2)).getD 0, target)) := by
  have hlength := h.length
  have hidx := h.idx
  have hnext : (c.idx + 1) % maxItems < c.buf.length := by
    rw [hlength]
    exact Nat.mod_lt _ (by decide)
  have hmove : c.idx ≠ (c.idx + 1) % maxItems := by
    unfold maxItems at hidx ⊢
    omega
  refine ⟨length_set.trans hlength, hlength ▸ hnext, fun h => Bool.noConfusion h, ?_⟩
  intro i range after hi hrange hafter hwritten
  change i ≠ (c.idx + 1) % maxItems at hi
  change (c.buf.set ((c.idx + 1) % maxItems) _)[i]? = some range at hrange
  change (c.buf.set ((c.idx + 1) % maxItems) _)[(i + 1) % maxItems]? = some after at hafter
  rw [List.getElem?_set_ne hi.symm] at hrange
  have hilt : i < maxItems := hlength ▸ (List.getElem?_eq_some_iff.1 hrange).1
  by_cases heq : i = c.idx
  · -- the entry before the new one is the last one so far
    rw [heq] at hrange hafter
    rw [getElem?_set_self hnext] at hafter
    cases hafter
    have hlast : c.last = some range := by
      unfold CircBuf.last
      split_ifs with hempty
      · exact absurd (h.empty hempty range (mem_of_getElem? hrange)) hwritten
      · exact hrange
    rw [hlast]
    exact ⟨rfl, hlater range hlast⟩
  · have hne : (c.idx + 1) % maxItems ≠ (i + 1) % maxItems := by
      unfold maxItems at hidx hilt ⊢
      omega
    rw [getElem?_set_ne hne] at hafter
    exact h.next i range after heq hrange hafter hwritten

lemma last_append (c : CircBuf (Pubkey × Epoch × Epoch)) (hlength : c.buf.length = maxItems)
    (range : Pubkey × Epoch × Epoch) : (c.append range).last = some range := by
  have hnext : (c.idx + 1) % maxItems < c.buf.length := by
    rw [hlength]
    exact Nat.mod_lt _ (by decide)
  exact getElem?_set_self hnext

/-- A call, with the clock at that time. -/
structure VoterCall (ε : Type) where
  epoch : Epoch
  leaderScheduleEpoch : Epoch
  /-- A new voter and the check of the current one, or nothing for a lookup. -/
  set? : Option (Pubkey × (Pubkey → Except ε Unit))

namespace VoterCall

def exec (call : VoterCall ε) (vs : VoteState) :
    Except (Fault (SetVoterError ε)) Unit × VoteState :=
  match call.set? with
  | none =>
    let (result, vs) := vs.getAndUpdateAuthorizedVoter call.epoch
    (result.map fun _ => (), vs)
  | some (pubkey, verify) =>
    vs.setNewAuthorizedVoter pubkey call.epoch (call.leaderScheduleEpoch + 1) verify

def voterAfter (call : VoterCall ε) (result : Except (Fault (SetVoterError ε)) Unit)
    (before : Option Pubkey) (e : Epoch) : Option Pubkey :=
  match call.set?, result with
  | some (pubkey, _), .ok () => if call.leaderScheduleEpoch + 1 ≤ e then some pubkey else before
  | _, _ => before

end VoterCall

/-- The clock does not go back, and the leader schedule is not behind it. -/
def Clocked {ε : Type} (calls : List (VoterCall ε)) : Prop :=
  calls.Pairwise (fun a b => a.epoch ≤ b.epoch ∧ a.leaderScheduleEpoch ≤ b.leaderScheduleEpoch) ∧
  ∀ call ∈ calls, call.epoch ≤ call.leaderScheduleEpoch

/-- What holds of a vote account that was created in epoch `start`. -/
structure VoterScheduled (start leaderScheduleEpoch : Nat) (vs : VoteState) : Prop where
  sorted : Sorted vs.authorizedVoters
  nonempty : vs.authorizedVoters ≠ []
  ge : ∀ (key : Nat) (pubkey : Pubkey), (key, pubkey) ∈ vs.authorizedVoters → start ≤ key
  le : ∀ (key : Nat) (pubkey : Pubkey), (key, pubkey) ∈ vs.authorizedVoters →
    key ≤ max start (leaderScheduleEpoch + 1)
  contiguous : Contiguous vs.priorVoters
  last : ∀ (pubkey : Pubkey) (since till : Nat), vs.priorVoters.last = some (pubkey, since, till) →
    till ≤ leaderScheduleEpoch + 1 ∧ (till = leaderScheduleEpoch + 1 →
      ∃ pubkey, (leaderScheduleEpoch + 1, pubkey) ∈ vs.authorizedVoters)

namespace VoterScheduled

variable {epoch : Nat}

section

variable (h : VoterScheduled start lse vs)

include h

lemma mono {lse' : Nat} (hle : lse ≤ lse') : VoterScheduled start lse' vs := by
  refine ⟨h.sorted, h.nonempty, h.ge, ?_, h.contiguous, ?_⟩
  · intro key pubkey hp
    have := h.le key pubkey hp
    omega
  · intro pubkey since till hlast
    obtain ⟨hend, hkey⟩ := h.last pubkey since till hlast
    refine ⟨by omega, fun heq => ?_⟩
    have hsame : lse = lse' := by omega
    exact hsame ▸ hkey (by omega)

lemma cached (hcached : CachedAt vs.authorizedVoters epoch pubkey voters') (hle : epoch ≤ lse) :
    VoterScheduled start lse { vs with authorizedVoters := voters' } ∧
      ∀ (key : Nat) (pubkey : Pubkey), (key, pubkey) ∈ voters' → key ≤ lse + 1 := by
  obtain ⟨key, hmem, hkey, -⟩ := hcached.voter
  have hstart : start ≤ epoch := (h.ge _ _ hmem).trans hkey
  have hbound : ∀ (key : Nat) (pubkey : Pubkey), (key, pubkey) ∈ voters' →
      start ≤ key ∧ key ≤ lse + 1 := by
    intro key pubkey hp
    rcases (hcached.mem _).1 hp with heq | ⟨hp, -⟩
    · cases heq
      exact ⟨hstart, by omega⟩
    · have hge := h.ge key pubkey hp
      have hle' := h.le key pubkey hp
      omega
  refine ⟨⟨hcached.sorted, ?_, fun key pubkey hp => (hbound key pubkey hp).1, ?_, h.contiguous, ?_⟩,
    fun key pubkey hp => (hbound key pubkey hp).2⟩
  · exact ne_nil_of_mem ((hcached.mem _).2 (.inl rfl))
  · intro key pubkey hp
    have := (hbound key pubkey hp).2
    omega
  · intro pubkey since till hlast
    obtain ⟨hend, hpresent⟩ := h.last pubkey since till hlast
    refine ⟨hend, fun heq => ?_⟩
    obtain ⟨pubkey', hmem'⟩ := hpresent heq
    -- an entry that is ahead of the clock is not purged
    exact ⟨pubkey', (hcached.mem _).2 (.inr ⟨hmem', Nat.lt_succ_of_le hle⟩)⟩

lemma insert (hlater : ∀ p ∈ vs.authorizedVoters, p.1 < lse + 1)
    (pubkey : Pubkey) {prior : CircBuf (Pubkey × Epoch × Epoch)} (hprior : Contiguous prior)
    (hlast : ∀ (pubkey : Pubkey) (since till : Nat), prior.last = some (pubkey, since, till) →
      till ≤ lse + 1) :
    VoterScheduled start lse { vs with
      priorVoters := prior
      authorizedVoters := KeyedLists.insert (lse + 1) pubkey vs.authorizedVoters } := by
  have hmem : (lse + 1, pubkey) ∈ KeyedLists.insert (lse + 1) pubkey vs.authorizedVoters :=
    mem_insert.2 (.inl rfl)
  obtain ⟨⟨key, _⟩, hfirst⟩ := exists_mem_of_ne_nil _ h.nonempty
  have hstart := (h.ge _ _ hfirst).trans (hlater _ hfirst).le
  refine ⟨h.sorted.insert _ _, ne_nil_of_mem hmem, ?_, ?_, hprior, ?_⟩
  · intro key _ hp
    rcases mem_insert.1 hp with heq | ⟨hp, -⟩
    · cases heq
      exact hstart
    · exact h.ge _ _ hp
  · intro key _ hp
    rcases mem_insert.1 hp with heq | ⟨hp, -⟩
    · cases heq
      exact le_max_right _ _
    · exact h.le _ _ hp
  · exact fun _ _ _ h => ⟨hlast _ _ _ h, fun _ => ⟨pubkey, hmem⟩⟩

end

lemma schedule (ε : Type) (h : VoterScheduled start lse vs)
    (hle : ∀ (key : Nat) (pubkey : Pubkey), (key, pubkey) ∈ vs.authorizedVoters → key ≤ lse + 1)
    (pubkey : Pubkey) :
    (vs.scheduleVoter pubkey (lse + 1) : Except (Fault (SetVoterError ε)) Unit × VoteState) =
      (.error (.err .tooSoonToReauthorize), vs) ∨
    ∃ vs', vs.scheduleVoter pubkey (lse + 1) =
        ((.ok (), vs') : Except (Fault (SetVoterError ε)) Unit × VoteState) ∧
      VoterScheduled start lse vs' ∧
      ∀ e, getAuthorizedVoter vs'.authorizedVoters e =
        if lse + 1 ≤ e then some pubkey
        else getAuthorizedVoter vs.authorizedVoters e := by
  unfold scheduleVoter contains
  cases hfind : vs.authorizedVoters.find? (·.1 = lse + 1) with
  | some entry => exact .inl rfl
  | none =>
    right
    have hlater : ∀ p ∈ vs.authorizedVoters, p.1 < lse + 1 := by
      intro p hp
      refine lt_of_le_of_ne (hle p.1 p.2 hp) fun heq => ?_
      exact find?_eq_none.1 hfind p hp (decide_eq_true heq)
    have hvoters := getAuthorizedVoter_insert pubkey h.sorted hlater
    cases hget : vs.authorizedVoters.getLast? with
    | none => exact absurd (getLast?_eq_none_iff.1 hget) h.nonempty
    | some latest =>
      obtain ⟨latestEpoch, latestPubkey⟩ := latest
      have hlatest := hlater _ (mem_of_getLast? hget)
      simp only [Option.isSome_none, Bool.false_eq_true, if_false]
      by_cases hsame : latestPubkey = pubkey
      · rw [if_neg (not_not.2 hsame)]
        refine ⟨_, rfl, h.insert hlater pubkey h.contiguous ?_, hvoters⟩
        exact fun pubkey since till hlast => (h.last pubkey since till hlast).1
      · rw [if_pos hsame, if_pos hlatest]
        have hswitch : ∀ range, vs.priorVoters.last = some range → range.2.2 < lse + 1 := by
          intro range hlast
          obtain ⟨hend, hkey⟩ := h.last range.1 range.2.1 range.2.2 hlast
          refine lt_of_le_of_ne hend fun heq => ?_
          obtain ⟨_, hmem⟩ := hkey heq
          exact absurd (hlater _ hmem) (Nat.lt_irrefl _)
        refine ⟨_, rfl, h.insert hlater pubkey (contiguous_append h.contiguous hswitch) ?_, hvoters⟩
        intro _ _ till hlast
        rw [last_append _ h.contiguous.length] at hlast
        cases hlast
        exact le_rfl

end VoterScheduled

section

lemma VoterCall.exec_spec (call : VoterCall ε) (h : VoterScheduled start lse vs)
    (hclock : lse ≤ call.leaderScheduleEpoch) (hle : call.epoch ≤ call.leaderScheduleEpoch) :
    VoterScheduled start call.leaderScheduleEpoch (call.exec vs).2 ∧
    (call.exec vs).1 ≠ .error .panic ∧
    ∀ e, call.epoch ≤ e →
      getAuthorizedVoter (call.exec vs).2.authorizedVoters e =
        call.voterAfter (call.exec vs).1
          (getAuthorizedVoter vs.authorizedVoters e) e := by
  have h := h.mono hclock
  obtain ⟨epoch, lse', set?⟩ := call
  cases set? with
  | none =>
    rcases getAndUpdate_spec ε h.sorted epoch with hget | ⟨pubkey, voters', hcached, hget⟩
    · simp only [VoterCall.exec, hget, Except.map, VoterCall.voterAfter]
      exact ⟨h, by simp, fun _ _ => trivial⟩
    · simp only [VoterCall.exec, hget, Except.map, VoterCall.voterAfter]
      exact ⟨(h.cached hcached hle).1, by simp, fun e he => hcached.getAuthorizedVoter_eq h.sorted he⟩
  | some setting =>
    obtain ⟨pubkey, verify⟩ := setting
    simp only [VoterCall.exec, setNewAuthorizedVoter]
    rcases getAndUpdate_spec ε h.sorted epoch with hget | ⟨voter, voters', hcached, hget⟩
    · simp only [hget, VoterCall.voterAfter]
      exact ⟨h, by simp, fun _ _ => trivial⟩
    · obtain ⟨hscheduled, hbound⟩ := h.cached hcached hle
      have hsame : ∀ e, epoch ≤ e → getAuthorizedVoter voters' e =
          getAuthorizedVoter vs.authorizedVoters e :=
        fun e he => hcached.getAuthorizedVoter_eq h.sorted he
      simp only [hget]
      cases hverify : verify voter with
      | error e =>
        simp only [VoterCall.voterAfter]
        exact ⟨hscheduled, by simp, hsame⟩
      | ok u =>
        simp only
        rcases hscheduled.schedule ε hbound pubkey with hsoon | ⟨vs', hset, hafter, hvoters⟩
        · simp only [hsoon, VoterCall.voterAfter]
          exact ⟨hscheduled, by simp, hsame⟩
        · simp only [hset, VoterCall.voterAfter]
          refine ⟨hafter, by simp, fun e he => ?_⟩
          rw [hvoters, hsame e he]

end

def execVoterCalls {ε : Type} (vs : VoteState) (calls : List (VoterCall ε)) : VoteState :=
  calls.foldl (fun vs call => (call.exec vs).2) vs

lemma new_scheduled (voteInit : VoteInit) (clockEpoch : Epoch) :
    VoterScheduled clockEpoch 0 (new voteInit clockEpoch) := by
  have hbuf : ∀ range ∈ (CircBuf.default (Pubkey × Epoch × Epoch)).buf, range.2.2 = 0 := by
    intro range hrange
    rw [eq_of_mem_replicate hrange]
    rfl
  refine ⟨pairwise_singleton _ _, cons_ne_nil _ _, ?_, ?_, ⟨?_, ?_, fun _ => hbuf, ?_⟩, ?_⟩
  · intro key _ hp
    cases mem_singleton.1 hp
    exact le_rfl
  · intro key _ hp
    cases mem_singleton.1 hp
    exact le_max_left _ _
  · exact length_replicate
  · exact Nat.sub_one_lt (by decide)
  · exact fun i range after _ hrange _ hwritten =>
      absurd (hbuf range (mem_of_getElem? hrange)) hwritten
  · intro _ _ _ hlast
    cases hlast

lemma execVoterCalls_scheduled (h : VoterScheduled start lse vs) {calls : List (VoterCall ε)}
    (hclock : Clocked calls) (hlse : ∀ call ∈ calls, lse ≤ call.leaderScheduleEpoch) {i : Nat}
    {call : VoterCall ε} (hcall : calls[i]? = some call) :
    VoterScheduled start call.leaderScheduleEpoch (execVoterCalls vs (calls.take i)) := by
  induction calls generalizing vs lse i with
  | nil => cases hcall
  | cons first rest ih =>
    obtain ⟨hlater, hrest⟩ := pairwise_cons.1 hclock.1
    have hfirst := hlse first mem_cons_self
    cases i with
    | zero =>
      cases hcall
      exact h.mono hfirst
    | succ i =>
      have hstep := (first.exec_spec h hfirst (hclock.2 first mem_cons_self)).1
      exact ih hstep ⟨hrest, fun c hc => hclock.2 c (mem_cons_of_mem _ hc)⟩
        (fun c hc => (hlater c hc).2) hcall

/-- In every run of a vote account there is a voter, no assertion fails, and a call changes the voters
of the epochs from its own on only as it should. The prior voters are in contiguous ranges. -/
theorem authorizedVoters_schedule {ε : Type} (voteInit : VoteInit) (clockEpoch : Epoch)
    (calls : List (VoterCall ε)) (hclock : Clocked calls) (i : Nat) (call : VoterCall ε)
    (hcall : calls[i]? = some call) :
    let vs := execVoterCalls (new voteInit clockEpoch) (calls.take i)
    let (result, vs') := call.exec vs
    vs.authorizedVoters ≠ [] ∧ vs'.authorizedVoters ≠ [] ∧ result ≠ .error .panic ∧
    (∀ e, call.epoch ≤ e → getAuthorizedVoter vs'.authorizedVoters e =
      call.voterAfter result (getAuthorizedVoter vs.authorizedVoters e) e) ∧
    Contiguous vs'.priorVoters := by
  have h := execVoterCalls_scheduled (new_scheduled voteInit clockEpoch) hclock
    (fun _ _ => Nat.zero_le _) hcall
  obtain ⟨h', hpanic, hvoters⟩ :=
    call.exec_spec h le_rfl (hclock.2 call (mem_of_getElem? hcall))
  exact ⟨h.nonempty, h'.nonempty, hpanic, hvoters, h'.contiguous⟩

/-- The voter is changed, looked up two epochs later, and changed back. -/
def voterChanges : List (VoterCall Unit) :=
  [⟨1, 2, some (20, fun _ => .ok ())⟩, ⟨3, 4, none⟩, ⟨3, 4, some (10, fun _ => .ok ())⟩]

theorem voterChanges_schedule :
    let vs := execVoterCalls (new ⟨1, 10, 2, 0⟩ 0) (voterChanges.take 2)
    let (result, vs') := (⟨3, 4, some (10, fun _ => .ok ())⟩ : VoterCall Unit).exec vs
    result = .ok () ∧
    vs.authorizedVoters = [(3, 20)] ∧ vs'.authorizedVoters = [(3, 20), (5, 10)] ∧
    vs'.priorVoters.buf.take 3 = [(10, 0, 3), (20, 3, 5), (0, 0, 0)] ∧
    getAuthorizedVoter vs'.authorizedVoters 4 = some 20 ∧
    getAuthorizedVoter vs'.authorizedVoters 9 = some 10 ∧
    Contiguous vs'.priorVoters := by
  have hclock : Clocked voterChanges := by
    unfold Clocked voterChanges
    constructor <;> simp
  have h := authorizedVoters_schedule ⟨1, 10, 2, 0⟩ 0 voterChanges hclock 2 _ rfl
  exact ⟨rfl, by decide +kernel, by decide +kernel, by decide +kernel, by decide +kernel,
    by decide +kernel, h.2.2.2.2⟩

end Nuah.Proofs
