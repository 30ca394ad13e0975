import Nuah.Replay
import Nuah.Proofs.LockExclusion

/-!
# Independent transactions run in any order

What each of several independent transactions does is determined by the ledger before all of
them, so every interleaving of their events leaves the ledger of executing them one at a time.
-/

namespace Nuah.Proofs

open Interleaving List

variable {a b : ReplayTransaction} {e : ReplayEvent}

variable {α κ τ : Type} {cfg : ReplayConfig α κ τ}

variable {l l' : Ledger α κ} {tx : ReplayTransaction} {txs : List ReplayTransaction}
  {effect : TransactionEffect α κ} {i : Nat} {done events : List ReplayEvent} {s : GroupState α κ}
  {positions : List Nat}

def outcomeOn (cfg : ReplayConfig α κ τ) (l : Ledger α κ) (tx : ReplayTransaction) :
    TransactionResult (TransactionEffect α κ) :=
  loadOutcome cfg l tx (decide (tx.messageHash ∈ l.statuses))

/-- Neither of the transactions sees whether the other was executed. -/
def Apart (a b : ReplayTransaction) : Prop :=
  ¬ Conflict a.toSanitizedTransaction b.toSanitizedTransaction ∧ a.messageHash ≠ b.messageHash

lemma Apart.symm (h : Apart a b) : Apart b a :=
  ⟨fun hc => h.1 hc.symm, h.2.symm⟩

lemma Apart.not_writable (h : Apart a b) {k : Pubkey} (hk : k ∈ b.accountKeys) :
    k ∉ a.writableKeys := fun hw =>
  h.1 ⟨k, writableKeys_subset hw, hk, .inl hw⟩

/-- The outcome depends only on the accounts of the transaction's keys, on its own status and
on the blockhashes. -/
lemma outcomeOn_congr (haccounts : ∀ k ∈ tx.accountKeys, l'.accounts k = l.accounts k)
    (hstatus : tx.messageHash ∈ l'.statuses ↔ tx.messageHash ∈ l.statuses)
    (hblockhashes : l'.blockhashes = l.blockhashes) :
    outcomeOn cfg l' tx = outcomeOn cfg l tx := by
  have hvalues : tx.accountKeys.map l'.accounts = tx.accountKeys.map l.accounts :=
    map_congr_left haccounts
  simp only [outcomeOn, loadOutcome, hvalues, hblockhashes, hstatus]

lemma firstError_eq_ok_iff {outcomes : List (Option (TransactionResult (TransactionEffect α κ)))} :
    firstError outcomes = .ok () ↔ ∀ e, some (.error e) ∉ outcomes := by
  unfold firstError
  rw [ExceptLoops.forM_eq_ok]
  constructor
  · intro h e hmem
    cases h _ hmem
  · intro h outcome hmem
    rcases outcome with _ | e | effect
    · rfl
    · exact absurd hmem (h e)
    · rfl

variable [AddCommMonoid κ]

lemma outcomeOn_committed (h : Apart a b) (written : Pubkey → α) (counted : κ) :
    outcomeOn cfg ((l.store a written).record a counted) b = outcomeOn cfg l b := by
  refine outcomeOn_congr (fun k hk => ?_) ?_ rfl
  · exact if_neg (h.not_writable hk)
  · simp only [Ledger.record, Ledger.store, Finset.mem_insert]
    exact ⟨fun hb => hb.resolve_left h.2.symm, .inr⟩

def countedOn (cfg : ReplayConfig α κ τ) (l : Ledger α κ) (tx : ReplayTransaction) : κ :=
  match outcomeOn cfg l tx with
  | .ok effect => effect.counted
  | .error _ => 0

/-- The ledger after independent transactions, all of which succeeded, by what each of them
does to the ledger before. -/
structure Executed (cfg : ReplayConfig α κ τ) (l : Ledger α κ) (txs : List ReplayTransaction)
    (l' : Ledger α κ) : Prop where
  written : ∀ tx ∈ txs, ∀ effect, outcomeOn cfg l tx = .ok effect →
    ∀ k ∈ tx.writableKeys, l'.accounts k = effect.written k
  kept : ∀ k, (∀ tx ∈ txs, k ∉ tx.writableKeys) → l'.accounts k = l.accounts k
  statuses : ∀ h, h ∈ l'.statuses ↔ h ∈ l.statuses ∨ ∃ tx ∈ txs, tx.messageHash = h
  counters : l'.counters = l.counters + (txs.map (countedOn cfg l)).sum
  tickHeight : l'.tickHeight = l.tickHeight
  blockhashes : l'.blockhashes = l.blockhashes

lemma Executed.unique {l₁ l₂ : Ledger α κ}
    (hok : ∀ tx ∈ txs, ∃ effect, outcomeOn cfg l tx = .ok effect) (h₁ : Executed cfg l txs l₁)
    (h₂ : Executed cfg l txs l₂) : l₁ = l₂ := by
  have haccounts : l₁.accounts = l₂.accounts := by
    funext k
    by_cases hk : ∃ tx ∈ txs, k ∈ tx.writableKeys
    · obtain ⟨tx, htx, hk⟩ := hk
      obtain ⟨effect, heffect⟩ := hok tx htx
      rw [h₁.written tx htx effect heffect k hk, h₂.written tx htx effect heffect k hk]
    · have hnot : ∀ tx ∈ txs, k ∉ tx.writableKeys := fun tx htx hw => hk ⟨tx, htx, hw⟩
      rw [h₁.kept k hnot, h₂.kept k hnot]
  have hstatuses : l₁.statuses = l₂.statuses := by
    ext h
    rw [h₁.statuses, h₂.statuses]
  cases l₁
  cases l₂
  rw [Ledger.mk.injEq]
  exact ⟨haccounts, hstatuses, h₁.counters.trans h₂.counters.symm,
    h₁.tickHeight.trans h₂.tickHeight.symm, h₁.blockhashes.trans h₂.blockhashes.symm⟩

lemma executed_nil (l : Ledger α κ) : Executed cfg l [] l :=
  ⟨by simp, fun _ _ => rfl, by simp, by simp, rfl, rfl⟩

lemma Executed.cons (happart : ∀ b ∈ txs, Apart tx b) (heffect : outcomeOn cfg l tx = .ok effect)
    (h : Executed cfg ((l.store tx effect.written).record tx effect.counted) txs l') :
    Executed cfg l (tx :: txs) l' where
  written := by
    intro t ht e he k hk
    rcases mem_cons.1 ht with rfl | ht
    · rw [he] at heffect
      cases heffect
      rw [h.kept k (fun b hb hw => (happart b hb).symm.not_writable (writableKeys_subset hk) hw)]
      exact if_pos hk
    · exact h.written t ht e ((outcomeOn_committed (happart t ht) _ _).trans he) k hk
  kept := by
    intro k hk
    rw [h.kept k (fun b hb => hk b (mem_cons_of_mem _ hb))]
    exact if_neg (hk tx mem_cons_self)
  statuses := by
    intro hash
    rw [h.statuses]
    simp only [Ledger.record, Ledger.store, Finset.mem_insert, mem_cons, exists_eq_or_imp]
    constructor
    · rintro ((rfl | hmem) | hmem)
      · exact .inr (.inl rfl)
      · exact .inl hmem
      · exact .inr (.inr hmem)
    · rintro (hmem | rfl | hmem)
      · exact .inl (.inr hmem)
      · exact .inl (.inl rfl)
      · exact .inr hmem
  counters := by
    have hcounted : txs.map (countedOn cfg ((l.store tx effect.written).record tx effect.counted)) =
        txs.map (countedOn cfg l) := by
      refine map_congr_left fun b hb => ?_
      simp only [countedOn, outcomeOn_committed (happart b hb)]
    have htx : countedOn cfg l tx = effect.counted := by simp only [countedOn, heffect]
    rw [h.counters, hcounted, map_cons, sum_cons, htx, ← add_assoc]
    rfl
  tickHeight := h.tickHeight
  blockhashes := h.blockhashes

lemma executeTransaction_eq (l : Ledger α κ) (tx : ReplayTransaction) :
    executeTransaction cfg l tx = (outcomeOn cfg l tx).map
      (fun effect => (l.store tx effect.written).record tx effect.counted) := by
  unfold executeTransaction outcomeOn
  cases loadOutcome cfg l tx (decide (tx.messageHash ∈ l.statuses)) <;> rfl

variable (cfg) in
lemma executeTransactions_apart (hapart : txs.Pairwise Apart) (l : Ledger α κ) :
    ((∀ tx ∈ txs, ∃ effect, outcomeOn cfg l tx = .ok effect) ∧
      ∃ l', txs.foldlM (executeTransaction cfg) l = .ok l' ∧ Executed cfg l txs l') ∨
    (∃ tx ∈ txs, ∃ e, outcomeOn cfg l tx = .error e) ∧
      ∃ e, txs.foldlM (executeTransaction cfg) l = .error e := by
  induction txs generalizing l with
  | nil => exact .inl ⟨by simp, l, rfl, executed_nil l⟩
  | cons tx txs ih =>
    obtain ⟨happart, hrest⟩ := pairwise_cons.1 hapart
    rw [foldlM_cons, executeTransaction_eq]
    cases heffect : outcomeOn cfg l tx with
    | error e => exact .inr ⟨⟨tx, mem_cons_self, e, heffect⟩, e, rfl⟩
    | ok effect =>
      rcases ih hrest ((l.store tx effect.written).record tx effect.counted) with
        ⟨hok, l', hfold, hexecuted⟩ | ⟨⟨b, hb, e, he⟩, e', hfold⟩
      · refine .inl ⟨forall_mem_cons.2 ⟨⟨effect, heffect⟩, fun b hb => ?_⟩, l', hfold,
          hexecuted.cons happart heffect⟩
        obtain ⟨eff, heff⟩ := hok b hb
        exact ⟨eff, (outcomeOn_committed (happart b hb) _ _).symm.trans heff⟩
      · exact .inr ⟨⟨b, mem_cons_of_mem _ hb, e,
          (outcomeOn_committed (happart b hb) _ _).symm.trans he⟩, e', hfold⟩

def position : ReplayEvent → Nat
  | .check i => i
  | .load i => i
  | .store i => i
  | .record i => i

/-- The event comes after those of its transaction that it depends on, and before those that
depend on it. -/
def InOrder (done : List ReplayEvent) : ReplayEvent → Prop
  | .check i => .record i ∉ done
  | .load i => .check i ∈ done ∧ .store i ∉ done
  | .store i => .load i ∈ done
  | .record i => .load i ∈ done

def WellOrdered : List ReplayEvent → List ReplayEvent → Prop
  | _, [] => True
  | done, e :: events => InOrder done e ∧ WellOrdered (done ++ [e]) events

def recordedPositions (events : List ReplayEvent) : List Nat :=
  events.filterMap fun e =>
    match e with
    | .record i => some i
    | _ => none

def countedAt (cfg : ReplayConfig α κ τ) (l : Ledger α κ) (txs : List ReplayTransaction) (i : Nat) :
    κ :=
  match txs[i]? with
  | some tx => countedOn cfg l tx
  | none => 0

/-- What the events so far have done to the ledger that the group started with. -/
structure GroupProgress (cfg : ReplayConfig α κ τ) (l : Ledger α κ) (txs : List ReplayTransaction)
    (done : List ReplayEvent) (s : GroupState α κ) : Prop where
  written : ∀ i tx effect, .store i ∈ done → txs[i]? = some tx → outcomeOn cfg l tx = .ok effect →
    ∀ k ∈ tx.writableKeys, s.ledger.accounts k = effect.written k
  kept : ∀ k, (∀ i tx, .store i ∈ done → txs[i]? = some tx → k ∉ tx.writableKeys) →
    s.ledger.accounts k = l.accounts k
  statuses : ∀ h, h ∈ s.ledger.statuses ↔ h ∈ l.statuses ∨ ∃ i tx effect, .record i ∈ done ∧
    txs[i]? = some tx ∧ outcomeOn cfg l tx = .ok effect ∧ tx.messageHash = h
  counters : s.ledger.counters =
    l.counters + ((recordedPositions done).map (countedAt cfg l txs)).sum
  tickHeight : s.ledger.tickHeight = l.tickHeight
  blockhashes : s.ledger.blockhashes = l.blockhashes
  processed : ∀ i tx, .check i ∈ done → txs[i]? = some tx →
    s.processed i = some (decide (tx.messageHash ∈ l.statuses))
  outcome : ∀ i tx, .load i ∈ done → txs[i]? = some tx → s.outcome i = some (outcomeOn cfg l tx)

lemma groupProgress_start (l : Ledger α κ) (txs : List ReplayTransaction) :
    GroupProgress cfg l txs [] (GroupState.start l) where
  written := by simp
  kept k _ := rfl
  statuses h := by simp [GroupState.start]
  counters := by simp [GroupState.start, recordedPositions]
  tickHeight := rfl
  blockhashes := rfl
  processed := by simp
  outcome := by simp

lemma apart_of_ne (hapart : txs.Pairwise Apart) {j : Nat} (hij : i ≠ j) (ha : txs[i]? = some a)
    (hb : txs[j]? = some b) :
    Apart a b := by
  obtain ⟨hi, rfl⟩ := List.getElem?_eq_some_iff.1 ha
  obtain ⟨hj, rfl⟩ := List.getElem?_eq_some_iff.1 hb
  rcases lt_or_gt_of_ne hij with hlt | hlt
  · exact pairwise_iff_getElem.1 hapart i j hi hj hlt
  · exact (pairwise_iff_getElem.1 hapart j i hj hi hlt).symm

section Steps

section

variable (h : GroupProgress cfg l txs done s)

include h

lemma GroupProgress.of_local {s' : GroupState α κ}
    (hledger : s'.ledger = s.ledger) (hstore : ∀ i, e ≠ .store i) (hrecord : ∀ i, e ≠ .record i)
    (hprocessed : ∀ i tx, .check i ∈ done ++ [e] → txs[i]? = some tx → s'.processed i = some (decide (tx.messageHash ∈ l.statuses)))
    (houtcome : ∀ i tx, .load i ∈ done ++ [e] → txs[i]? = some tx → s'.outcome i = some (outcomeOn cfg l tx)) :
    GroupProgress cfg l txs (done ++ [e]) s' := by
  have hmemStore : ∀ i, .store i ∈ done ++ [e] ↔ .store i ∈ done := fun i => by
    simp [(hstore i).symm]
  have hmemRecord : ∀ i, .record i ∈ done ++ [e] ↔ .record i ∈ done := fun i => by
    simp [(hrecord i).symm]
  have hpositions : recordedPositions (done ++ [e]) = recordedPositions done := by
    cases e with
    | record j => exact absurd rfl (hrecord j)
    | check j => simp [recordedPositions]
    | load j => simp [recordedPositions]
    | store j => simp [recordedPositions]
  refine ⟨?_, ?_, ?_, ?_, ?_, ?_, hprocessed, houtcome⟩
  · simpa only [hledger, hmemStore] using h.written
  · simpa only [hledger, hmemStore] using h.kept
  · simpa only [hledger, hmemRecord] using h.statuses
  · rw [hledger, hpositions]
    exact h.counters
  · rw [hledger]
    exact h.tickHeight
  · rw [hledger]
    exact h.blockhashes

section

variable (hapart : txs.Pairwise Apart)

include hapart

section

variable (hi : txs[i]? = some tx)

include hi

lemma GroupProgress.check (hrecord : .record i ∉ done) :
    GroupProgress cfg l txs (done ++ [.check i]) (runEvent cfg txs s (.check i)) := by
  -- whoever recorded this hash has it, and this transaction was not recorded
  have hstatus : tx.messageHash ∈ s.ledger.statuses ↔ tx.messageHash ∈ l.statuses := by
    rw [h.statuses]
    refine ⟨fun hmem => hmem.resolve_right ?_, .inl⟩
    rintro ⟨j, b, effect, hj, hb, -, hsame⟩
    by_cases hij : i = j
    · subst hij
      exact hrecord hj
    · exact (apart_of_ne hapart hij hi hb).2 hsame.symm
  refine h.of_local ?_ (by simp) (by simp) (fun j b hj hb => ?_) fun j b hj hb => ?_
  · simp only [runEvent, hi]
  · simp only [runEvent, hi]
    by_cases hij : j = i
    · subst hij
      cases hi.symm.trans hb
      rw [Function.update_self]
      simp only [hstatus]
    · rw [Function.update_of_ne hij]
      exact h.processed j b (by simpa [hij] using hj) hb
  · simp only [runEvent, hi]
    exact h.outcome j b (by simpa using hj) hb

lemma GroupProgress.load (hcheck : .check i ∈ done) (hstore : .store i ∉ done) :
    GroupProgress cfg l txs (done ++ [.load i]) (runEvent cfg txs s (.load i)) := by
  have hprocessed := h.processed i tx hcheck hi
  -- no transaction that was stored may write to a key of this one
  have haccounts : ∀ k ∈ tx.accountKeys, s.ledger.accounts k = l.accounts k := by
    intro k hk
    refine h.kept k fun j b hj hb hw => ?_
    by_cases hij : j = i
    · subst hij
      exact hstore hj
    · exact (apart_of_ne hapart hij hb hi).not_writable hk hw
  have hload : loadOutcome cfg s.ledger tx (decide (tx.messageHash ∈ l.statuses)) =
      outcomeOn cfg l tx := by
    simp only [outcomeOn, loadOutcome, map_congr_left haccounts, h.blockhashes]
  refine h.of_local ?_ (by simp) (by simp) (fun j b hj hb => ?_) fun j b hj hb => ?_
  · simp only [runEvent, hi, hprocessed]
  · simp only [runEvent, hi, hprocessed]
    exact h.processed j b (by simpa using hj) hb
  · simp only [runEvent, hi, hprocessed]
    by_cases hij : j = i
    · subst hij
      cases hi.symm.trans hb
      rw [Function.update_self, hload]
    · rw [Function.update_of_ne hij]
      exact h.outcome j b (by simpa [hij] using hj) hb

lemma GroupProgress.store (hload : .load i ∈ done) (heffect : outcomeOn cfg l tx = .ok effect) :
    GroupProgress cfg l txs (done ++ [.store i]) (runEvent cfg txs s (.store i)) := by
  have houtcome := h.outcome i tx hload hi
  have hrun : runEvent cfg txs s (.store i) =
      { s with ledger := s.ledger.store tx effect.written } := by
    simp only [runEvent, hi, houtcome, heffect]
  rw [hrun]
  have hmem : ∀ j, .store j ∈ done ++ [.store i] ↔ .store j ∈ done ∨ j = i := fun j => by simp
  refine ⟨?_, ?_, ?_, ?_, h.tickHeight, h.blockhashes, ?_, ?_⟩
  · intro j b e hj hb he k hk
    by_cases hij : j = i
    · subst hij
      cases hi.symm.trans hb
      cases heffect.symm.trans he
      exact if_pos hk
    · have hw := (apart_of_ne hapart hij hb hi).symm.not_writable (writableKeys_subset hk)
      exact (if_neg hw).trans
        (h.written j b e (((hmem j).1 hj).resolve_right hij) hb he k hk)
  · intro k hk
    have hw : k ∉ tx.writableKeys := hk i tx ((hmem i).2 (.inr rfl)) hi
    exact (if_neg hw).trans (h.kept k (fun j b hj => hk j b ((hmem j).2 (.inl hj))))
  · simpa [Ledger.store] using h.statuses
  · have hpositions : recordedPositions (done ++ [.store i]) = recordedPositions done := by
      simp [recordedPositions]
    rw [hpositions]
    exact h.counters
  · simpa using h.processed
  · simpa using h.outcome

end

end

lemma GroupProgress.record (hi : txs[i]? = some tx)
    (hload : .load i ∈ done) (heffect : outcomeOn cfg l tx = .ok effect) :
    GroupProgress cfg l txs (done ++ [.record i]) (runEvent cfg txs s (.record i)) := by
  have houtcome := h.outcome i tx hload hi
  have hrun : runEvent cfg txs s (.record i) =
      { s with ledger := s.ledger.record tx effect.counted } := by
    simp only [runEvent, hi, houtcome, heffect]
  rw [hrun]
  refine ⟨?_, ?_, ?_, ?_, h.tickHeight, h.blockhashes, ?_, ?_⟩
  · simpa [Ledger.record] using h.written
  · simpa [Ledger.record] using h.kept
  · intro hash
    simp only [Ledger.record, Finset.mem_insert, h.statuses, mem_append, mem_singleton,
      ReplayEvent.record.injEq]
    constructor
    · rintro (rfl | hmem | ⟨j, b, e, hj, hb, he, hsame⟩)
      · exact .inr ⟨i, tx, effect, .inr rfl, hi, heffect, rfl⟩
      · exact .inl hmem
      · exact .inr ⟨j, b, e, .inl hj, hb, he, hsame⟩
    · rintro (hmem | ⟨j, b, e, hj | rfl, hb, he, hsame⟩)
      · exact .inr (.inl hmem)
      · exact .inr (.inr ⟨j, b, e, hj, hb, he, hsame⟩)
      · cases hi.symm.trans hb
        exact .inl hsame.symm
  · have hpositions : recordedPositions (done ++ [.record i]) = recordedPositions done ++ [i] := by
      simp [recordedPositions]
    have hcounted : countedAt cfg l txs i = effect.counted := by
      simp only [countedAt, hi, countedOn, heffect]
    rw [hpositions, map_append, sum_append, map_singleton, sum_singleton,
      hcounted, ← add_assoc, ← h.counters]
    rfl
  · simpa using h.processed
  · simpa using h.outcome

lemma GroupProgress.failed (hi : txs[i]? = some tx)
    {error : TransactionError} (herror : outcomeOn cfg l tx = .error error)
    (he : e = .store i ∨ e = .record i) : GroupProgress cfg l txs (done ++ [e]) s := by
  have hstore : ∀ j, .store j ∈ done ++ [e] → .store j ∈ done ∨ j = i := by
    intro j hj
    rcases he with rfl | rfl
    · simpa using hj
    · exact .inl (by simpa using hj)
  have hrecord : ∀ j, .record j ∈ done ++ [e] → .record j ∈ done ∨ j = i := by
    intro j hj
    rcases he with rfl | rfl
    · exact .inl (by simpa using hj)
    · simpa using hj
  refine ⟨?_, ?_, ?_, ?_, h.tickHeight, h.blockhashes, ?_, ?_⟩
  · intro j b effect hj hb heffect
    refine h.written j b effect ((hstore j hj).resolve_right ?_) hb heffect
    rintro rfl
    cases hi.symm.trans hb
    cases herror.symm.trans heffect
  · exact fun k hk => h.kept k fun j b hj => hk j b (mem_append_left _ hj)
  · intro hash
    rw [h.statuses]
    refine or_congr_right ⟨?_, ?_⟩
    · rintro ⟨j, b, effect, hj, rest⟩
      exact ⟨j, b, effect, mem_append_left _ hj, rest⟩
    · rintro ⟨j, b, effect, hj, hb, heffect, hsame⟩
      refine ⟨j, b, effect, (hrecord j hj).resolve_right ?_, hb, heffect, hsame⟩
      rintro rfl
      cases hi.symm.trans hb
      cases herror.symm.trans heffect
  · have hcounted : countedAt cfg l txs i = 0 := by simp only [countedAt, hi, countedOn, herror]
    rcases he with rfl | rfl
    · simpa [recordedPositions] using h.counters
    · simpa [recordedPositions, hcounted] using h.counters
  · rcases he with rfl | rfl <;> simpa using h.processed
  · rcases he with rfl | rfl <;> simpa using h.outcome

lemma GroupProgress.step (hapart : txs.Pairwise Apart)
    (he : InOrder done e) (hi : txs[(position e)]? = some tx) :
    GroupProgress cfg l txs (done ++ [e]) (runEvent cfg txs s e) := by
  cases e with
  | check i => exact h.check hapart hi he
  | load i => exact h.load hapart hi he.1 he.2
  | store i =>
    rw [position] at hi
    cases heffect : outcomeOn cfg l tx with
    | ok effect => exact h.store hapart hi he heffect
    | error error =>
      simp only [runEvent, hi, h.outcome i tx he hi, heffect]
      exact h.failed hi heffect (.inl rfl)
  | record i =>
    rw [position] at hi
    cases heffect : outcomeOn cfg l tx with
    | ok effect => exact h.record hi he heffect
    | error error =>
      simp only [runEvent, hi, h.outcome i tx he hi, heffect]
      exact h.failed hi heffect (.inr rfl)

end

end Steps

lemma GroupProgress.run (hapart : txs.Pairwise Apart) (h : GroupProgress cfg l txs done s)
    (horder : WellOrdered done events) (hpositions : ∀ e ∈ events, position e < txs.length) :
    GroupProgress cfg l txs (done ++ events) (events.foldl (runEvent cfg txs) s) := by
  induction events generalizing done s with
  | nil => simpa using h
  | cons e events ih =>
    have hi := getElem?_eq_getElem (hpositions e mem_cons_self)
    rw [foldl_cons, append_cons]
    exact ih (h.step hapart horder.1 hi) horder.2
      (fun e' he' => hpositions e' (mem_cons_of_mem _ he'))

lemma positionsFrom_flatten (start : Nat) (batches : List (List ReplayTransaction)) :
    (positionsFrom start batches).flatten = range' start batches.flatten.length := by
  induction batches generalizing start with
  | nil => rfl
  | cons batch batches ih =>
    rw [positionsFrom, flatten_cons, ih, flatten_cons, length_append, range'_append_1]

lemma batchProgram_append (p q : List Nat) :
    (batchProgram (p ++ q)).Perm (batchProgram p ++ batchProgram q) := by
  rw [perm_iff_count]
  intro e
  simp only [batchProgram, map_append, count_append]
  omega

lemma batchPrograms_perm (positions : List (List Nat)) :
    (positions.map batchProgram).flatten.Perm (batchProgram positions.flatten) := by
  induction positions with
  | nil => exact .refl _
  | cons p positions ih =>
    rw [map_cons, flatten_cons, flatten_cons]
    exact (ih.append_left _).trans (batchProgram_append _ _).symm

lemma batchProgram_nodup (h : positions.Nodup) : (batchProgram positions).Nodup := by
  have hcheck : (positions.map ReplayEvent.check).Nodup := h.map fun _ _ => by simp
  have hload : (positions.map ReplayEvent.load).Nodup := h.map fun _ _ => by simp
  have hstore : (positions.map ReplayEvent.store).Nodup := h.map fun _ _ => by simp
  have hrecord : (positions.map ReplayEvent.record).Nodup := h.map fun _ _ => by simp
  simp only [batchProgram, nodup_append']
  refine ⟨⟨⟨hcheck, hload, ?_⟩, hstore, ?_⟩, hrecord, ?_⟩
  · simp [disjoint_left]
  · simp only [disjoint_append_left]
    simp [disjoint_left]
  · simp only [disjoint_append_left]
    simp [disjoint_left]

lemma batchProgram_sublist (hi : i ∈ positions) :
    List.Sublist [.check i, .load i, .store i, .record i] (batchProgram positions) := by
  have hmap : ∀ f : Nat → ReplayEvent, List.Sublist [f i] (positions.map f) := fun f =>
    singleton_sublist.2 (mem_map_of_mem hi)
  exact (((hmap _).append (hmap _)).append (hmap _)).append (hmap _)

lemma recordedPositions_batchProgram (positions : List Nat) :
    recordedPositions (batchProgram positions) = positions := by
  simp [recordedPositions, batchProgram, filterMap_append, filterMap_map]

lemma position_lt {n : Nat} (he : e ∈ batchProgram (range n)) : position e < n := by
  simp only [batchProgram, mem_append, mem_map, mem_range] at he
  rcases he with ((⟨i, hi, rfl⟩ | ⟨i, hi, rfl⟩) | ⟨i, hi, rfl⟩) | ⟨i, hi, rfl⟩ <;> exact hi

lemma wellOrdered_of_splits (done : List ReplayEvent)
    (h : ∀ before e after, events = before ++ e :: after → InOrder (done ++ before) e) :
    WellOrdered done events := by
  induction events generalizing done with
  | nil => trivial
  | cons e events ih =>
    refine ⟨by simpa using h [] e events rfl, ih (done ++ [e]) ?_⟩
    rintro before e' after rfl
    simpa using h (e :: before) e' after rfl

section Group

variable {batches : List (List ReplayTransaction)}

section

variable (h : Interleaves ((positionsFrom 0 batches).map batchProgram) events)

include h

lemma group_perm : events.Perm (batchProgram (range batches.flatten.length)) := by
  have hflatten := positionsFrom_flatten 0 batches
  rw [← range_eq_range'] at hflatten
  rw [← hflatten]
  exact h.perm.trans (batchPrograms_perm _)

lemma group_wellOrdered : WellOrdered [] events := by
  have hperm := group_perm h
  have hnodup : events.Nodup := hperm.nodup_iff.2 (batchProgram_nodup nodup_range)
  -- each transaction belongs to one thread, which keeps its order
  have hsublist : ∀ i < batches.flatten.length,
      List.Sublist [.check i, .load i, .store i, .record i] events := by
    intro i hi
    have hmem : i ∈ (positionsFrom 0 batches).flatten := by
      rw [positionsFrom_flatten, ← range_eq_range']
      exact mem_range.2 hi
    obtain ⟨p, hp, hip⟩ := mem_flatten.1 hmem
    exact (batchProgram_sublist hip).trans (h.sublist (mem_map_of_mem hp))
  refine wellOrdered_of_splits [] fun before e after hsplit => ?_
  have he : e ∈ batchProgram (range batches.flatten.length) := hperm.subset (by simp [hsplit])
  have hevents := hsublist _ (position_lt he)
  rw [hsplit] at hevents hnodup
  cases e with
  | check i =>
    exact not_mem_before_of_sublist (.trans (by simp [position]) hevents) hnodup
  | load i =>
    exact ⟨mem_before_of_sublist (.trans (by simp [position]) hevents) hnodup,
      not_mem_before_of_sublist (.trans (by simp [position]) hevents) hnodup⟩
  | store i =>
    exact mem_before_of_sublist (.trans (by simp [position]) hevents) hnodup
  | record i =>
    exact mem_before_of_sublist (.trans (by simp [position]) hevents) hnodup

lemma group_done (hi : i < batches.flatten.length) :
    .load i ∈ events ∧ .store i ∈ events ∧ .record i ∈ events := by
  have hmem : ∀ e, e ∈ batchProgram (range batches.flatten.length) → e ∈ events := fun e =>
    (group_perm h).mem_iff.2
  have hevents := batchProgram_sublist (mem_range.2 hi)
  exact ⟨hmem _ (hevents.subset (by simp)), hmem _ (hevents.subset (by simp)),
    hmem _ (hevents.subset (by simp))⟩

end

variable (cfg) in
lemma group_progress (hapart : batches.flatten.Pairwise Apart)
    (h : Interleaves ((positionsFrom 0 batches).map batchProgram) events) (l : Ledger α κ) :
    GroupProgress cfg l batches.flatten events
      (events.foldl (runEvent cfg batches.flatten) (GroupState.start l)) :=
  (groupProgress_start l batches.flatten).run hapart (group_wellOrdered h)
    (fun _ he => position_lt ((group_perm h).subset he))

lemma map_countedAt (l : Ledger α κ) (txs : List ReplayTransaction) :
    (range txs.length).map (countedAt cfg l txs) = txs.map (countedOn cfg l) := by
  refine ext_getElem (by simp) fun i hi _ => ?_
  have hi : i < txs.length := by simpa using hi
  simp [countedAt, hi]

variable (cfg) in
/-- When all transactions of the group succeed, its ledger is determined by what each of them
does to the ledger before. -/
lemma group_executed (hapart : batches.flatten.Pairwise Apart)
    (h : Interleaves ((positionsFrom 0 batches).map batchProgram) events) (l : Ledger α κ)
    (hok : ∀ tx ∈ batches.flatten, ∃ effect, outcomeOn cfg l tx = .ok effect) :
    Executed cfg l batches.flatten
      (events.foldl (runEvent cfg batches.flatten) (GroupState.start l)).ledger := by
  have hprogress := group_progress cfg hapart h l
  have hdone : ∀ i tx, batches.flatten[i]? = some tx → .store i ∈ events ∧ .record i ∈ events :=
    fun i tx hi => (group_done h (List.getElem?_eq_some_iff.1 hi).1).2
  refine ⟨?_, ?_, ?_, ?_, hprogress.tickHeight, hprogress.blockhashes⟩
  · intro tx htx effect heffect
    obtain ⟨i, hi⟩ := mem_iff_getElem?.1 htx
    exact hprogress.written i tx effect (hdone i tx hi).1 hi heffect
  · intro k hk
    exact hprogress.kept k fun i tx _ hi => hk tx (mem_of_getElem? hi)
  · intro hash
    rw [hprogress.statuses]
    refine or_congr_right ⟨?_, ?_⟩
    · rintro ⟨i, tx, effect, -, hi, -, hsame⟩
      exact ⟨tx, mem_of_getElem? hi, hsame⟩
    · rintro ⟨tx, htx, hsame⟩
      obtain ⟨i, hi⟩ := mem_iff_getElem?.1 htx
      obtain ⟨effect, heffect⟩ := hok tx htx
      exact ⟨i, tx, effect, (hdone i tx hi).2, hi, heffect, hsame⟩
  · have hperm : (recordedPositions events).Perm (range batches.flatten.length) := by
      have hrecorded := (group_perm h).filterMap fun e =>
        match e with
        | .record i => some i
        | _ => none
      exact hrecorded.trans (.of_eq (recordedPositions_batchProgram _))
    rw [hprogress.counters, (hperm.map _).sum_eq, map_countedAt]

lemma executeBatchesInternal_eq (hapart : batches.flatten.Pairwise Apart) (hne : batches ≠ [])
    {schedule : Schedule} {call : Nat} (h : Interleaves ((positionsFrom 0 batches).map batchProgram)
      (schedule call ((positionsFrom 0 batches).map batchProgram))) (l : Ledger α κ) :
    (∃ l', batches.flatten.foldlM (executeTransaction cfg) l = .ok l' ∧
      executeBatchesInternal cfg schedule call l batches = .ok l') ∨
    ∃ e e', batches.flatten.foldlM (executeTransaction cfg) l = .error e ∧
      executeBatchesInternal cfg schedule call l batches = .error (.err e') := by
  have hprogress := group_progress cfg hapart h l
  have hexecuted := group_executed cfg hapart h l
  have hisEmpty : batches.isEmpty = false := by simpa using hne
  simp only [executeBatchesInternal, hisEmpty, Bool.false_eq_true, if_false]
  generalize hs : foldl (runEvent cfg batches.flatten) (GroupState.start l) _ = s
    at hprogress hexecuted ⊢
  have houtcome : ∀ i tx, batches.flatten[i]? = some tx → s.outcome i = some (outcomeOn cfg l tx) :=
    fun i tx hi => hprogress.outcome i tx (group_done h (List.getElem?_eq_some_iff.1 hi).1).1 hi
  rcases executeTransactions_apart cfg hapart l with
    ⟨hok, l', hfold, hl'⟩ | ⟨⟨tx, htx, e, he⟩, e', hfold⟩
  · have hfirst : firstError ((range batches.flatten.length).map s.outcome) = .ok () := by
      refine firstError_eq_ok_iff.2 fun e hmem => ?_
      obtain ⟨i, hi, hi'⟩ := mem_map.1 hmem
      have hget := getElem?_eq_getElem (mem_range.1 hi)
      obtain ⟨effect, heffect⟩ := hok _ (mem_of_getElem? hget)
      rw [houtcome i _ hget, heffect] at hi'
      cases hi'
    refine .inl ⟨l', hfold, ?_⟩
    rw [hfirst, (hexecuted hok).unique hok hl']
    rfl
  · obtain ⟨i, hi⟩ := mem_iff_getElem?.1 htx
    have hmem : some (.error e) ∈ (range batches.flatten.length).map s.outcome := by
      refine List.mem_map.2 ⟨i, List.mem_range.2 (List.getElem?_eq_some_iff.1 hi).1, ?_⟩
      rw [houtcome i tx hi, he]
    cases hfirst : firstError ((range batches.flatten.length).map s.outcome) with
    | ok u => exact absurd hmem (firstError_eq_ok_iff.1 hfirst e)
    | error e'' => exact .inr ⟨e', e'', hfold, rfl⟩

end Group

end Nuah.Proofs
