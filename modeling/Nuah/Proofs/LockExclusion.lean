import Nuah.AccountLocks

/-!
# Account locks exclude each other

`Held locks granted` says that the locks are those of the granted transactions, no two of
which conflict. It does not depend on their order, so a batch may be unlocked at any time.
-/

namespace Nuah.Proofs

open AccountLocks SanitizedTransaction List

variable {keys : List Pubkey} {limit i : Nat} {request : TransactionResult TransactionAccountLocks}
  {g : SanitizedTransaction}

variable {tx : SanitizedTransaction} {k : Pubkey} {locks : AccountLocks}
  {granted txs : List SanitizedTransaction} {count : Pubkey → Nat}
  {requests : List (TransactionResult TransactionAccountLocks)}
  {results : List (TransactionResult Unit)}

/-- Two transactions share a key that is writable in one of them. -/
def Conflict (a b : SanitizedTransaction) : Prop :=
  ∃ k ∈ a.accountKeys, k ∈ b.accountKeys ∧ (k ∈ a.writableKeys ∨ k ∈ b.writableKeys)

lemma Conflict.symm {a b : SanitizedTransaction} (h : Conflict a b) : Conflict b a := by
  obtain ⟨k, ha, hb, hw⟩ := h
  exact ⟨k, hb, ha, hw.symm⟩

lemma writableKeys_eq (tx : SanitizedTransaction) :
    tx.writableKeys = (tx.accountKeys.zipIdx.filter (fun p => tx.isWritable p.2)).map Prod.fst := by
  simp [writableKeys, getAccountLocksUnchecked, partition_eq_filter_filter]

lemma readonlyKeys_eq (tx : SanitizedTransaction) :
    tx.readonlyKeys = (tx.accountKeys.zipIdx.filter (fun p => !tx.isWritable p.2)).map Prod.fst := by
  simp [readonlyKeys, getAccountLocksUnchecked, partition_eq_filter_filter, Function.comp_def]

lemma writableKeys_subset (h : k ∈ tx.writableKeys) : k ∈ tx.accountKeys := by
  rw [writableKeys_eq] at h
  obtain ⟨p, hp, rfl⟩ := mem_map.1 h
  exact fst_mem_of_mem_zipIdx (mem_of_mem_filter hp)

lemma readonlyKeys_subset (h : k ∈ tx.readonlyKeys) : k ∈ tx.accountKeys := by
  rw [readonlyKeys_eq] at h
  obtain ⟨p, hp, rfl⟩ := mem_map.1 h
  exact fst_mem_of_mem_zipIdx (mem_of_mem_filter hp)

lemma mem_writableKeys_or_readonlyKeys (h : k ∈ tx.accountKeys) :
    k ∈ tx.writableKeys ∨ k ∈ tx.readonlyKeys := by
  rw [writableKeys_eq, readonlyKeys_eq]
  obtain ⟨i, hi⟩ := mem_iff_getElem?.1 h
  have hmem : (k, i) ∈ tx.accountKeys.zipIdx := mem_zipIdx_iff_getElem?.2 hi
  by_cases hw : tx.isWritable i
  · exact .inl (mem_map.2 ⟨(k, i), mem_filter.2 ⟨hmem, hw⟩, rfl⟩)
  · exact .inr (mem_map.2 ⟨(k, i), mem_filter.2 ⟨hmem, by simpa using hw⟩, rfl⟩)

lemma nodup_map_filter_zipIdx (h : keys.Nodup) (p : Pubkey × Nat → Bool) :
    ((keys.zipIdx.filter p).map Prod.fst).Nodup := by
  have hsub : ((keys.zipIdx.filter p).map Prod.fst).Sublist keys := by
    have := (filter_sublist (p := p) (l := keys.zipIdx)).map Prod.fst
    rwa [zipIdx_map_fst] at this
  exact hsub.nodup h

lemma getAccountLocks_eq_ok {keys : TransactionAccountLocks}
    (h : tx.getAccountLocks limit = .ok keys) :
    keys = tx.getAccountLocksUnchecked ∧ tx.accountKeys.Nodup := by
  obtain ⟨_, hvalid, hkeys⟩ := bind_eq_ok.1 h
  cases hkeys
  refine ⟨rfl, ?_⟩
  unfold validateAccountLocks at hvalid
  split at hvalid
  · cases hvalid
  · simpa using ‹¬ ¬ _›

lemma getAccountLocks_ne_accountInUse : tx.getAccountLocks limit ≠ .error .accountInUse := by
  unfold getAccountLocks validateAccountLocks
  split
  · intro h; cases h
  · split
    · intro h; cases h
    · intro h; cases h

/-- The number of granted transactions that only read the key. -/
def readers (granted : List SanitizedTransaction) (k : Pubkey) : Nat :=
  granted.countP fun tx => decide (k ∈ tx.readonlyKeys)

/-- The read locks count as many readers of each key as given, and no key without readers. -/
def Counted (locks : AccountLocks) (count : Pubkey → Nat) : Prop :=
  ∀ k, locks.readonlyLocks[k]? = if count k = 0 then none else some (count k)

structure Held (locks : AccountLocks) (granted : List SanitizedTransaction) : Prop where
  writeLocks_eq : ∀ k, k ∈ locks.writeLocks ↔ ∃ tx ∈ granted, k ∈ tx.writableKeys
  readonlyLocks_eq : Counted locks (readers granted)
  exclusive : granted.Pairwise fun a b => ¬ Conflict a b
  nodup : ∀ tx ∈ granted, tx.accountKeys.Nodup

lemma Held.perm {granted' : List SanitizedTransaction} (h : Held locks granted)
    (hperm : granted.Perm granted') : Held locks granted' where
  writeLocks_eq k := by
    rw [h.writeLocks_eq]
    exact ⟨fun ⟨tx, htx, hk⟩ => ⟨tx, hperm.mem_iff.1 htx, hk⟩,
      fun ⟨tx, htx, hk⟩ => ⟨tx, hperm.mem_iff.2 htx, hk⟩⟩
  readonlyLocks_eq k := by
    rw [h.readonlyLocks_eq k, readers, readers, hperm.countP_eq]
  exclusive := h.exclusive.perm hperm fun hab hba => hab hba.symm
  nodup tx htx := h.nodup tx (hperm.mem_iff.2 htx)

lemma held_empty : Held empty [] where
  writeLocks_eq k := by simp [empty]
  readonlyLocks_eq k := by simp [empty, readers]
  exclusive := .nil
  nodup := by simp

section

variable (h : Held locks granted)

include h

lemma isLockedWrite_iff : locks.isLockedWrite k = true ↔ ∃ tx ∈ granted, k ∈ tx.writableKeys := by
  rw [← h.writeLocks_eq k]
  exact Std.TreeSet.contains_iff_mem

lemma isLockedReadonly_iff :
    locks.isLockedReadonly k = true ↔ ∃ tx ∈ granted, k ∈ tx.readonlyKeys := by
  have hpos : 0 < readers granted k ↔ ∃ tx ∈ granted, k ∈ tx.readonlyKeys := by
    simp [readers, countP_pos_iff]
  rw [← hpos]
  unfold isLockedReadonly
  rw [h.readonlyLocks_eq k]
  by_cases hk : readers granted k = 0
  · simp [hk]
  · simp [hk, Nat.pos_of_ne_zero hk]

lemma inUse_iff (tx : SanitizedTransaction) :
    locks.inUse tx.getAccountLocksUnchecked = true ↔ ∃ g ∈ granted, Conflict tx g := by
  unfold inUse
  simp only [Bool.or_eq_true, any_eq_true, isLockedWrite_iff h, isLockedReadonly_iff h]
  constructor
  · rintro (⟨k, hk, ⟨g, hg, hkg⟩ | ⟨g, hg, hkg⟩⟩ | ⟨k, hk, g, hg, hkg⟩)
    · exact ⟨g, hg, k, writableKeys_subset hk, writableKeys_subset hkg, .inl hk⟩
    · exact ⟨g, hg, k, writableKeys_subset hk, readonlyKeys_subset hkg, .inl hk⟩
    · exact ⟨g, hg, k, readonlyKeys_subset hk, writableKeys_subset hkg, .inr hkg⟩
  · rintro ⟨g, hg, k, hk, hkg, hw | hw⟩
    · rcases mem_writableKeys_or_readonlyKeys hkg with hkg | hkg
      · exact .inl ⟨k, hw, .inl ⟨g, hg, hkg⟩⟩
      · exact .inl ⟨k, hw, .inr ⟨g, hg, hkg⟩⟩
    · rcases mem_writableKeys_or_readonlyKeys hk with hk | hk
      · exact .inl ⟨k, hk, .inl ⟨g, hg, hw⟩⟩
      · exact .inr ⟨k, hk, g, hg, hw⟩

end

section

variable (h : Counted locks count)

include h

lemma addReader_counted (k : Pubkey) :
    ∃ locks', locks.addReader k = .ok locks' ∧ locks'.writeLocks = locks.writeLocks ∧
      Counted locks' (Function.update count k (count k + 1)) := by
  have hget : ∀ n, Counted { locks with readonlyLocks := locks.readonlyLocks.insert k (n + 1) }
      (Function.update count k (n + 1)) := by
    intro n j
    by_cases hj : j = k
    · subst hj
      simp
    · simp only [Function.update_of_ne hj]
      rw [Std.TreeMap.getElem?_insert, if_neg (by simpa using Ne.symm hj)]
      exact h j
  by_cases hk : count k = 0
  · have hnone : locks.readonlyLocks[k]? = none := by rw [h k, if_pos hk]
    refine ⟨{ locks with readonlyLocks := locks.readonlyLocks.insert k 1 }, ?_, rfl, ?_⟩
    · have hcontains : locks.readonlyLocks.contains k = false := by
        rw [← Std.TreeMap.isSome_getElem?_eq_contains, hnone]
        rfl
      simp [addReader, lockReadonly, insertNewReadonly, hnone, hcontains, assertOrPanic]
      rfl
    · rw [hk]
      exact hget 0
  · have hsome : locks.readonlyLocks[k]? = some (count k) := by rw [h k, if_neg hk]
    refine ⟨{ locks with readonlyLocks := locks.readonlyLocks.insert k (count k + 1) }, ?_, rfl,
      hget (count k)⟩
    simp [addReader, lockReadonly, hsome]

lemma addReaders_counted (keys : List Pubkey) :
    ∃ locks', keys.foldlM addReader locks = .ok locks' ∧
      locks'.writeLocks = locks.writeLocks ∧ Counted locks' (fun k => count k + keys.count k) := by
  induction keys generalizing locks count with
  | nil => exact ⟨locks, rfl, rfl, by simpa using h⟩
  | cons key keys ih =>
    obtain ⟨locks₁, hadd, hwrite₁, hcounted₁⟩ := addReader_counted h key
    obtain ⟨locks', hfold, hwrite, hcounted⟩ := ih hcounted₁
    refine ⟨locks', ?_, hwrite.trans hwrite₁, fun k => ?_⟩
    · rw [foldlM_cons]
      exact bind_eq_ok.2 ⟨locks₁, hadd, hfold⟩
    · have hcount : Function.update count key (count key + 1) k + keys.count k =
          count k + (key :: keys).count k := by
        by_cases hk : k = key
        · subst hk
          rw [Function.update_self, count_cons_self]
          omega
        · rw [Function.update_of_ne hk, count_cons_of_ne (Ne.symm hk)]
      have hget := hcounted k
      simp only [hcount] at hget
      exact hget

lemma unlockReadonly_counted (hk : 0 < count k) :
    ∃ locks', locks.unlockReadonly k = .ok locks' ∧
      locks'.writeLocks = locks.writeLocks ∧
      Counted locks' (Function.update count k (count k - 1)) := by
  have hsome : locks.readonlyLocks[k]? = some (count k) := by rw [h k, if_neg hk.ne']
  unfold unlockReadonly
  rw [hsome]
  rcases hn : count k with _ | _ | n
  · omega
  · refine ⟨_, rfl, rfl, fun j => ?_⟩
    by_cases hj : j = k
    · subst hj
      simp
    · rw [Function.update_of_ne hj, Std.TreeMap.getElem?_erase, if_neg (by simpa using Ne.symm hj)]
      exact h j
  · refine ⟨_, rfl, rfl, fun j => ?_⟩
    by_cases hj : j = k
    · subst hj
      simp
    · rw [Function.update_of_ne hj, Std.TreeMap.getElem?_insert, if_neg (by simpa using Ne.symm hj)]
      exact h j

end

lemma unlockReaders_counted (keys : List Pubkey)
    (h : Counted locks (fun k => count k + keys.count k)) :
    ∃ locks', keys.foldlM unlockReadonly locks = .ok locks' ∧
      locks'.writeLocks = locks.writeLocks ∧ Counted locks' count := by
  induction keys generalizing locks with
  | nil => exact ⟨locks, rfl, rfl, by simpa using h⟩
  | cons key keys ih =>
    have hpos : 0 < count key + (key :: keys).count key := by
      rw [count_cons_self]
      omega
    obtain ⟨locks₁, hunlock, hwrite₁, hcounted₁⟩ := unlockReadonly_counted h hpos
    have hcounted : Counted locks₁ (fun k => count k + keys.count k) := by
      intro k
      rw [hcounted₁ k]
      by_cases hk : k = key
      · subst hk
        simp only [Function.update_self, count_cons_self]
        rw [← Nat.add_assoc, Nat.add_sub_cancel]
      · simp only [Function.update_of_ne hk, count_cons_of_ne (Ne.symm hk)]
    obtain ⟨locks', hfold, hwrite, hlocks'⟩ := ih hcounted
    refine ⟨locks', ?_, hwrite.trans hwrite₁, hlocks'⟩
    rw [foldlM_cons]
    exact bind_eq_ok.2 ⟨locks₁, hunlock, hfold⟩

lemma insertWrites_spec (locks : AccountLocks) (keys : List Pubkey) :
    (keys.foldl insertWrite locks).readonlyLocks = locks.readonlyLocks ∧
      ∀ k, k ∈ (keys.foldl insertWrite locks).writeLocks ↔ k ∈ locks.writeLocks ∨ k ∈ keys := by
  induction keys generalizing locks with
  | nil => simp
  | cons key keys ih =>
    obtain ⟨hread, hwrite⟩ := ih (locks.insertWrite key)
    refine ⟨hread, fun k => ?_⟩
    rw [foldl_cons, hwrite k, mem_cons]
    have hinsert : k ∈ (locks.insertWrite key).writeLocks ↔ key = k ∨ k ∈ locks.writeLocks := by
      simp [insertWrite, Std.TreeSet.mem_insert]
    rw [hinsert]
    tauto

lemma unlockWrites_spec (hnodup : keys.Nodup) (hlocked : ∀ k ∈ keys, k ∈ locks.writeLocks) :
    ∃ locks', keys.foldlM unlockWrite locks = .ok locks' ∧
      locks'.readonlyLocks = locks.readonlyLocks ∧
      ∀ k, k ∈ locks'.writeLocks ↔ k ∈ locks.writeLocks ∧ k ∉ keys := by
  induction keys generalizing locks with
  | nil => exact ⟨locks, rfl, rfl, by simp⟩
  | cons key keys ih =>
    obtain ⟨hkey, hnodup⟩ := nodup_cons.1 hnodup
    let locks₁ : AccountLocks := { locks with writeLocks := locks.writeLocks.erase key }
    have herase : ∀ k, k ∈ locks₁.writeLocks ↔ key ≠ k ∧ k ∈ locks.writeLocks := by
      intro k
      simp [locks₁, Std.TreeSet.mem_erase]
    have hunlock : locks.unlockWrite key = .ok locks₁ := by
      have hcontains : locks.writeLocks.contains key = true :=
        Std.TreeSet.contains_iff_mem.2 (hlocked key mem_cons_self)
      simp [unlockWrite, hcontains, assertOrPanic]
      rfl
    have hlocked₁ : ∀ k ∈ keys, k ∈ locks₁.writeLocks := by
      intro k hk
      exact (herase k).2 ⟨fun h => hkey (h ▸ hk), hlocked k (mem_cons_of_mem _ hk)⟩
    obtain ⟨locks', hfold, hread, hwrite⟩ := ih hnodup hlocked₁
    refine ⟨locks', ?_, hread, fun k => ?_⟩
    · rw [foldlM_cons]
      exact bind_eq_ok.2 ⟨locks₁, hunlock, hfold⟩
    · rw [hwrite k, herase k, mem_cons]
      tauto

lemma writableKeys_nodup (h : tx.accountKeys.Nodup) : tx.writableKeys.Nodup := by
  rw [writableKeys_eq]
  exact nodup_map_filter_zipIdx h _

lemma readers_cons (h : tx.accountKeys.Nodup) (granted : List SanitizedTransaction) (k : Pubkey) :
    readers (tx :: granted) k = readers granted k + tx.readonlyKeys.count k := by
  have hnodup : tx.readonlyKeys.Nodup := by
    rw [readonlyKeys_eq]
    exact nodup_map_filter_zipIdx h _
  rw [readers, readers, countP_cons, hnodup.count]
  simp

lemma lockAccount_held (h : Held locks granted) (hnodup : tx.accountKeys.Nodup) :
    (∃ g ∈ granted, Conflict tx g) ∧
      locks.lockAccount tx.getAccountLocksUnchecked = .ok (locks, .error .accountInUse) ∨
    ∃ locks', locks.lockAccount tx.getAccountLocksUnchecked = .ok (locks', .ok ()) ∧
      Held locks' (tx :: granted) := by
  unfold lockAccount
  by_cases hused : locks.inUse tx.getAccountLocksUnchecked = true
  · refine .inl ⟨(inUse_iff h tx).1 hused, ?_⟩
    rw [if_pos hused]
  · right
    obtain ⟨hread, hwrite⟩ := insertWrites_spec locks tx.writableKeys
    have hcounted : Counted (tx.writableKeys.foldl insertWrite locks) (readers granted) := by
      intro k
      rw [hread]
      exact h.readonlyLocks_eq k
    obtain ⟨locks', hfold, hwrite', hcounted'⟩ := addReaders_counted hcounted tx.readonlyKeys
    refine ⟨locks', ?_, ?_, ?_, ?_, ?_⟩
    · rw [if_neg hused]
      exact bind_eq_ok.2 ⟨locks', hfold, rfl⟩
    · intro k
      rw [hwrite', hwrite k, h.writeLocks_eq k]
      simp only [mem_cons, exists_eq_or_imp]
      exact or_comm
    · intro k
      rw [readers_cons hnodup]
      exact hcounted' k
    · refine pairwise_cons.2 ⟨fun g hg hconflict => hused ?_, h.exclusive⟩
      exact (inUse_iff h tx).2 ⟨g, hg, hconflict⟩
    · exact forall_mem_cons.2 ⟨hnodup, h.nodup⟩

lemma unlockAccount_held (h : Held locks (tx :: granted)) :
    ∃ locks', locks.unlockAccount tx.getAccountLocksUnchecked = .ok locks' ∧ Held locks' granted := by
  have hnodup := h.nodup tx mem_cons_self
  obtain ⟨hexclusive, hrest⟩ := pairwise_cons.1 h.exclusive
  have hlocked : ∀ k ∈ tx.writableKeys, k ∈ locks.writeLocks := fun k hk =>
    (h.writeLocks_eq k).2 ⟨tx, mem_cons_self, hk⟩
  obtain ⟨locks₁, hwrites, hread₁, hwrite₁⟩ := unlockWrites_spec (writableKeys_nodup hnodup) hlocked
  have hcounted : Counted locks₁ (fun k => readers granted k + tx.readonlyKeys.count k) := by
    intro k
    rw [hread₁, h.readonlyLocks_eq k, readers_cons hnodup]
  obtain ⟨locks', hreads, hwrite', hcounted'⟩ := unlockReaders_counted tx.readonlyKeys hcounted
  refine ⟨locks', bind_eq_ok.2 ⟨locks₁, hwrites, hreads⟩, ?_, hcounted', hrest,
    fun t ht => h.nodup t (mem_cons_of_mem _ ht)⟩
  intro k
  rw [hwrite', hwrite₁ k, h.writeLocks_eq k]
  simp only [mem_cons, exists_eq_or_imp]
  constructor
  · rintro ⟨hk | hk, hne⟩
    · exact absurd hk hne
    · exact hk
  · rintro ⟨g, hg, hk⟩
    refine ⟨.inr ⟨g, hg, hk⟩, fun htx => hexclusive g hg ?_⟩
    exact ⟨k, writableKeys_subset htx, writableKeys_subset hk, .inl htx⟩

lemma unlockAccounts_held (batch : List (SanitizedTransaction × TransactionResult Unit))
    (h : Held locks (grantedOf batch ++ granted)) :
    ∃ locks', locks.unlockAccounts batch = .ok locks' ∧ Held locks' granted := by
  unfold unlockAccounts
  generalize grantedOf batch = txs at h ⊢
  induction txs generalizing locks with
  | nil => exact ⟨locks, rfl, h⟩
  | cons tx txs ih =>
    obtain ⟨locks₁, hunlock, hheld⟩ := unlockAccount_held h
    obtain ⟨locks', hfold, hheld'⟩ := ih hheld
    refine ⟨locks', ?_, hheld'⟩
    rw [foldlM_cons]
    exact bind_eq_ok.2 ⟨locks₁, hunlock, hfold⟩

/-- The transactions that hold locks when the one at position `i` of a batch is tried: those
that held them before and those before it in the batch that were given them. -/
def GrantedBefore (granted : List SanitizedTransaction) (txs : List SanitizedTransaction)
    (results : List (TransactionResult Unit)) (i : Nat) (g : SanitizedTransaction) : Prop :=
  g ∈ granted ∨ ∃ j < i, txs[j]? = some g ∧ results[j]? = some (.ok ())

/-- Where a request asks for locks, it asks for those on all keys of its transaction, and
these are all different. -/
def Requests (txs : List SanitizedTransaction)
    (requests : List (TransactionResult TransactionAccountLocks)) : Prop :=
  requests.length ≤ txs.length ∧
    ∀ (i : Nat) (tx : SanitizedTransaction) (keys : TransactionAccountLocks),
      txs[i]? = some tx → requests[i]? = some (.ok keys) →
    keys = tx.getAccountLocksUnchecked ∧ tx.accountKeys.Nodup

lemma Requests.tail (h : Requests (tx :: txs) (request :: requests)) : Requests txs requests :=
  ⟨by simpa using h.1, fun i t keys ht hkeys => h.2 (i + 1) t keys ht hkeys⟩

lemma GrantedBefore.succ {result : TransactionResult Unit}
    (h : GrantedBefore granted txs results i g) :
    GrantedBefore granted (tx :: txs) (result :: results) (i + 1) g := by
  rcases h with hg | ⟨j, hj, htx, hresult⟩
  · exact .inl hg
  · exact .inr ⟨j + 1, by omega, htx, hresult⟩

lemma GrantedBefore.succ_of_ok (h : GrantedBefore (tx :: granted) txs results i g) :
    GrantedBefore granted (tx :: txs) (.ok () :: results) (i + 1) g := by
  rcases h with hg | ⟨j, hj, htx, hresult⟩
  · rcases mem_cons.1 hg with rfl | hg
    · exact .inr ⟨0, by omega, rfl, rfl⟩
    · exact .inl hg
  · exact .inr ⟨j + 1, by omega, htx, hresult⟩

/-- There is a result for each request, the granted transactions hold their locks, and an error is
that of the request or a conflict with a transaction that held its locks by then. -/
structure Granted (granted txs : List SanitizedTransaction)
    (requests : List (TransactionResult TransactionAccountLocks)) (locks : AccountLocks)
    (results : List (TransactionResult Unit)) : Prop where
  length_eq : results.length = requests.length
  held : Held locks (grantedOf (txs.zip results) ++ granted)
  request_ok : ∀ i : Nat, results[i]? = some (.ok ()) → ∃ keys, requests[i]? = some (.ok keys)
  refused : ∀ (i : Nat) tx err, txs[i]? = some tx → results[i]? = some (.error err) →
    requests[i]? = some (.error err) ∨
      err = .accountInUse ∧ ∃ g, GrantedBefore granted txs results i g ∧ Conflict tx g

lemma Granted.cons_error (h : Granted granted txs requests locks results) {err : TransactionError}
    (hrefused : request = .error err ∨ err = .accountInUse ∧ ∃ g ∈ granted, Conflict tx g) :
    Granted granted (tx :: txs) (request :: requests) locks (.error err :: results) where
  length_eq := by simp [h.length_eq]
  held := h.held
  request_ok := by
    rintro (_ | i) hresult
    · cases hresult
    · exact h.request_ok i hresult
  refused := by
    rintro (_ | i) t err' ht hresult
    · cases ht
      cases hresult
      rcases hrefused with hreq | ⟨herr, g, hg, hconflict⟩
      · exact .inl (by simp [hreq])
      · exact .inr ⟨herr, g, .inl hg, hconflict⟩
    · rcases h.refused i t err' ht hresult with hreq | ⟨herr, g, hg, hconflict⟩
      · exact .inl hreq
      · exact .inr ⟨herr, g, hg.succ, hconflict⟩

lemma Granted.cons_ok (h : Granted (tx :: granted) txs requests locks results)
    {keys : TransactionAccountLocks} :
    Granted granted (tx :: txs) (.ok keys :: requests) locks (.ok () :: results) where
  length_eq := by simp [h.length_eq]
  held := h.held.perm perm_middle
  request_ok := by
    rintro (_ | i) hresult
    · exact ⟨keys, rfl⟩
    · exact h.request_ok i hresult
  refused := by
    rintro (_ | i) t err ht hresult
    · cases hresult
    · rcases h.refused i t err ht hresult with hreq | ⟨herr, g, hg, hconflict⟩
      · exact .inl hreq
      · exact .inr ⟨herr, g, hg.succ_of_ok, hconflict⟩

lemma lockAccountsInner_granted (h : Held locks granted) (hrequests : Requests txs requests) :
    ∃ locks' results, locks.lockAccountsInner requests = .ok (locks', results) ∧
      Granted granted txs requests locks' results := by
  induction requests generalizing locks granted txs with
  | nil => exact ⟨locks, [], rfl, rfl, by simpa [grantedOf] using h, by simp, by simp⟩
  | cons request requests ih =>
    obtain _ | ⟨tx, txs⟩ := txs
    · simpa using hrequests.1
    · cases request with
      | error err =>
        obtain ⟨locks', results, hinner, hgranted⟩ := ih h hrequests.tail
        refine ⟨locks', .error err :: results, bind_eq_ok.2 ⟨_, hinner, rfl⟩, ?_⟩
        exact hgranted.cons_error (.inl rfl)
      | ok keys =>
        obtain ⟨rfl, hnodup⟩ := hrequests.2 0 tx keys rfl rfl
        rcases lockAccount_held h hnodup with ⟨hconflict, hlock⟩ | ⟨locks₁, hlock, hheld⟩
        · obtain ⟨locks', results, hinner, hgranted⟩ := ih h hrequests.tail
          refine ⟨locks', .error .accountInUse :: results,
            bind_eq_ok.2 ⟨_, hlock, bind_eq_ok.2 ⟨_, hinner, rfl⟩⟩, ?_⟩
          exact hgranted.cons_error (.inr ⟨rfl, hconflict⟩)
        · obtain ⟨locks', results, hinner, hgranted⟩ := ih hheld hrequests.tail
          exact ⟨locks', .ok () :: results,
            bind_eq_ok.2 ⟨_, hlock, bind_eq_ok.2 ⟨_, hinner, rfl⟩⟩, hgranted.cons_ok⟩

lemma requests_lockAccounts (txs : List SanitizedTransaction) (limit : Nat) :
    Requests txs (txs.map (·.getAccountLocks limit)) := by
  refine ⟨by simp, fun i tx keys htx hkeys => ?_⟩
  rw [getElem?_map, htx] at hkeys
  exact getAccountLocks_eq_ok (Option.some.inj hkeys)

lemma grantedOf_zip_of_ok (hlen : results.length = txs.length) (hall : ∀ r ∈ results, r = .ok ()) :
    grantedOf (txs.zip results) = txs := by
  rw [grantedOf, filter_eq_self.2, map_fst_zip hlen.ge]
  intro p hp
  rw [hall p.2 (of_mem_zip hp).2]
  rfl

/-- All transactions of a batch are given their locks exactly if each of them may ask for its
locks and no two of them and those that hold theirs conflict. -/
lemma lockAccounts_all_ok_iff (h : Held locks granted) (txs : List SanitizedTransaction)
    (limit : Nat) :
    ∃ locks' results, locks.lockAccounts txs limit = .ok (locks', results) ∧
      results.length = txs.length ∧ Held locks' (grantedOf (txs.zip results) ++ granted) ∧
      ((∀ r ∈ results, r = .ok ()) ↔ (∀ tx ∈ txs, tx.validateAccountLocks limit = .ok ()) ∧
        (txs ++ granted).Pairwise (fun a b => ¬ Conflict a b)) := by
  obtain ⟨locks', results, hlock, hgranted⟩ :=
    lockAccountsInner_granted h (requests_lockAccounts txs limit)
  have hlen : results.length = txs.length := by
    rw [hgranted.length_eq, length_map]
  refine ⟨locks', results, hlock, hlen, hgranted.held, fun hall => ⟨?_, ?_⟩, ?_⟩
  · intro tx htx
    obtain ⟨i, hi⟩ := mem_iff_getElem?.1 htx
    have hlt : i < results.length := hlen ▸ (List.getElem?_eq_some_iff.1 hi).1
    have hok : results[i]? = some (.ok ()) := by
      rw [getElem?_eq_getElem hlt, hall _ (getElem_mem hlt)]
    obtain ⟨keys, hkeys⟩ := hgranted.request_ok i hok
    rw [getElem?_map, hi] at hkeys
    obtain ⟨_, hvalid, -⟩ := bind_eq_ok.1 (Option.some.inj hkeys)
    exact hvalid
  · have hexclusive := hgranted.held.exclusive
    rw [grantedOf_zip_of_ok hlen hall] at hexclusive
    exact hexclusive
  · rintro ⟨hvalid, hexclusive⟩ r hr
    obtain ⟨i, hi⟩ := mem_iff_getElem?.1 hr
    have hlt : i < txs.length := hlen ▸ (List.getElem?_eq_some_iff.1 hi).1
    have htx := getElem?_eq_getElem hlt
    cases r with
    | ok _ => rfl
    | error err =>
      rcases hgranted.refused i _ err htx hi with hreq | ⟨-, g, hg, hconflict⟩
      · rw [getElem?_map, htx, Option.map_some, getAccountLocks, hvalid _ (getElem_mem hlt)] at hreq
        cases Option.some.inj hreq
      · exfalso
        obtain ⟨hpair, -, hcross⟩ := pairwise_append.1 hexclusive
        rcases hg with hg | ⟨j, hj, hg, -⟩
        · exact hcross _ (getElem_mem hlt) g hg hconflict
        · obtain ⟨hjlt, rfl⟩ := List.getElem?_eq_some_iff.1 hg
          exact pairwise_iff_getElem.1 hpair j i hjlt hlt hj hconflict.symm

lemma requests_lockAccountsWithResults (txs : List SanitizedTransaction)
    (given : List (TransactionResult Unit)) (limit : Nat) :
    Requests txs (zipWith (locksWithResult limit) txs given) := by
  refine ⟨by simp, fun i tx keys htx hkeys => ?_⟩
  rw [getElem?_zipWith, htx] at hkeys
  cases hgiven : given[i]? with
  | none => simp [hgiven] at hkeys
  | some result =>
    cases result with
    | error err => simp [hgiven, locksWithResult] at hkeys
    | ok _ => exact getAccountLocks_eq_ok (by simpa [hgiven, locksWithResult] using hkeys)

lemma LockOperation.run_held {s : LockState} (h : Held s.locks s.granted) (op : LockOperation) :
    ∃ s', op.run s = .ok s' ∧ Held s'.locks s'.granted := by
  cases op with
  | lockAccounts txs limit =>
    obtain ⟨locks', results, hlock, hgranted⟩ :=
      lockAccountsInner_granted h (requests_lockAccounts txs limit)
    exact ⟨_, bind_eq_ok.2 ⟨_, hlock, rfl⟩, hgranted.held⟩
  | lockAccountsWithResults txs given limit =>
    obtain ⟨locks', results, hlock, hgranted⟩ :=
      lockAccountsInner_granted h (requests_lockAccountsWithResults txs given limit)
    exact ⟨_, bind_eq_ok.2 ⟨_, hlock, rfl⟩, hgranted.held⟩
  | unlockAccounts batch =>
    simp only [LockOperation.run]
    cases hbatch : s.outstanding[batch]? with
    | none => exact ⟨s, rfl, h⟩
    | some txsAndResults =>
      -- the batch may stand anywhere among the outstanding ones
      obtain ⟨hlt, hget⟩ := List.getElem?_eq_some_iff.1 hbatch
      have hperm : s.granted.Perm
          (grantedOf txsAndResults ++ (s.outstanding.eraseIdx batch).flatMap grantedOf) := by
        have := (getElem_cons_eraseIdx_perm hlt).flatMap_right grantedOf
        rw [hget, flatMap_cons] at this
        exact this.symm
      obtain ⟨locks', hunlock, hheld⟩ := unlockAccounts_held txsAndResults (h.perm hperm)
      exact ⟨_, bind_eq_ok.2 ⟨_, hunlock, rfl⟩, hheld⟩

def runLockOperations (ops : List LockOperation) : Panicking LockState :=
  ops.foldlM LockOperation.run LockState.initial

lemma runLockOperations_held (ops : List LockOperation) :
    ∃ s, runLockOperations ops = .ok s ∧ Held s.locks s.granted :=
  ExceptLoops.foldlM_invariant (fun s : LockState => Held s.locks s.granted)
    (fun op _ _ h => LockOperation.run_held h op) held_empty

/-- After any calls the granted transactions do not conflict, the locks are exactly theirs, and a
call refuses a transaction as in use only if its caller did or it conflicts with one that holds its
locks by then. -/
theorem account_locks_exclude (ops : List LockOperation) : ∃ s, runLockOperations ops = .ok s ∧
    s.granted.Pairwise (fun a b => ¬ Conflict a b) ∧
    (∀ k, k ∈ s.locks.writeLocks ↔ ∃ tx ∈ s.granted, k ∈ tx.writableKeys) ∧
    (∀ k, s.locks.readonlyLocks[k]? =
      if readers s.granted k = 0 then none else some (readers s.granted k)) ∧
    (∀ txs limit locks' results, s.locks.lockAccounts txs limit = .ok (locks', results) →
      ∀ i tx, txs[i]? = some tx → results[i]? = some (.error .accountInUse) →
        ∃ g, GrantedBefore s.granted txs results i g ∧ Conflict tx g) ∧
    (∀ txs given limit locks' results,
      s.locks.lockAccountsWithResults txs given limit = .ok (locks', results) →
      ∀ i tx, txs[i]? = some tx → results[i]? = some (.error .accountInUse) →
        given[i]? = some (.error .accountInUse) ∨
          ∃ g, GrantedBefore s.granted txs results i g ∧ Conflict tx g) := by
  obtain ⟨s, hrun, h⟩ := runLockOperations_held ops
  refine ⟨s, hrun, h.exclusive, h.writeLocks_eq, h.readonlyLocks_eq, ?_, ?_⟩
  · intro txs limit locks' results hlock i tx htx hresult
    obtain ⟨_, _, hlock', hgranted⟩ :=
      lockAccountsInner_granted h (requests_lockAccounts txs limit)
    cases hlock.symm.trans hlock'
    rcases hgranted.refused i tx _ htx hresult with hreq | ⟨-, hconflict⟩
    · rw [getElem?_map, htx] at hreq
      exact absurd (Option.some.inj hreq) getAccountLocks_ne_accountInUse
    · exact hconflict
  · intro txs given limit locks' results hlock i tx htx hresult
    obtain ⟨_, _, hlock', hgranted⟩ :=
      lockAccountsInner_granted h (requests_lockAccountsWithResults txs given limit)
    cases hlock.symm.trans hlock'
    refine (hgranted.refused i tx _ htx hresult).imp (fun hreq => ?_) And.right
    rw [getElem?_zipWith, htx] at hreq
    cases hgiven : given[i]? with
    | none => simp [hgiven] at hreq
    | some result =>
      cases result with
      | error err => simpa [hgiven, locksWithResult] using hreq
      | ok _ =>
        exact absurd (by simpa [hgiven, locksWithResult] using hreq) getAccountLocks_ne_accountInUse

/-- A transaction that writes to its first key and reads the others. -/
def payingTransaction (payer : Pubkey) (others : List Pubkey) : SanitizedTransaction :=
  ⟨payer :: others, fun i => i == 0⟩

/-- Two readers of key 7 in one batch, a writer of it that is refused, and the end of the
batch of the readers after a third reader has come. -/
def readersAndWriter : List LockOperation :=
  [.lockAccounts [payingTransaction 1 [7], payingTransaction 2 [7], payingTransaction 7 []] 64,
    .lockAccountsWithResults [payingTransaction 3 [7, 8]] [.ok ()] 64,
    .unlockAccounts 1]

theorem readersAndWriter_exclude : ∃ s, runLockOperations readersAndWriter = .ok s ∧
    s.granted.Pairwise (fun a b => ¬ Conflict a b) ∧
    s.granted.map (·.accountKeys) = [[3, 7, 8]] ∧ s.locks.readonlyLocks[7]? = some 1 := by
  obtain ⟨s, hrun, hexclusive, -⟩ := account_locks_exclude readersAndWriter
  have hend : (runLockOperations readersAndWriter).map
      (fun s => (s.granted.map (·.accountKeys), s.locks.readonlyLocks[7]?)) =
      .ok ([[3, 7, 8]], some 1) := by rfl
  rw [hrun] at hend
  have hpair := Except.ok.inj hend
  exact ⟨s, hrun, hexclusive, congrArg Prod.fst hpair, congrArg Prod.snd hpair⟩

/-- A transaction that its caller passes on as in use stays so, without any lock held. -/
theorem passedOn_in_use : runLockOperations [] = .ok .initial ∧ LockState.initial.granted = [] ∧
    ∃ locks', LockState.initial.locks.lockAccountsWithResults [payingTransaction 1 []]
      [.error .accountInUse] 64 = .ok (locks', [.error .accountInUse]) :=
  ⟨rfl, rfl, _, rfl⟩

end Nuah.Proofs
